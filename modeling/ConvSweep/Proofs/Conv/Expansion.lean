import Mathlib
import ConvSweep.Proofs.Word.Patches

/-!
# Expansions

The three axis orders copy the same samples to different places.  A site is a tap of
one output position; an axis order says where in the scratch tensor the sample of a
site is stored and where in the input it is found.  Sites and cells of the scratch
tensor correspond to each other in every order, so an expansion determines all cells
and the orders differ in a renumbering only.
-/

namespace ConvSweep

open Loop

variable {α : Type}

/-- A tap of an output position in a batch element. -/
structure Site where
  batch : Nat
  row : Nat
  col : Nat
  tap : Tap
deriving DecidableEq

namespace Problem

def HasSite (p : Problem) (s : Site) : Prop :=
  s.batch < p.batch ∧ s.row < p.outRows ∧ s.col < p.outCols ∧ p.HasTap s.tap

/-- The tap lies inside the prepared input. -/
def Covers (p : Problem) (s : Site) : Prop :=
  (p.halo ≤ s.row + s.tap.row ∧ s.row + s.tap.row - p.halo < p.inputRows) ∧
    p.halo ≤ s.col + s.tap.col ∧ s.col + s.tap.col - p.halo < p.inputCols

theorem Expandable.covers {p : Problem} (hp : p.Expandable) (hpad : p.padding ≠ .inline)
    {s : Site} (hs : p.HasSite s) : p.Covers s := by
  rcases hs with ⟨_, hrow, hcol, _, hkh, hkw⟩
  rw [Covers, halo_of_ne_inline hpad]
  exact ⟨⟨Nat.zero_le _, hp.row_lt hpad hrow hkh⟩, Nat.zero_le _, hp.col_lt hpad hcol hkw⟩

section

variable [Zero α] {p : Problem} {x : Nat → Nat → Nat → Nat → α} {s : Site}

/-- The sample of a site, zero without one. -/
def value (p : Problem) (x : Nat → Nat → Nat → Nat → α) (s : Site) : α :=
  (p.sample? x s.batch s.row s.col s.tap).getD 0

theorem value_of_covers (h : p.Covers s) :
    p.value x s = x s.batch s.tap.channel (s.row + s.tap.row - p.halo)
      (s.col + s.tap.col - p.halo) := by
  have hrow : source? p.halo p.inputRows s.row s.tap.row = some (s.row + s.tap.row - p.halo) :=
    if_pos h.1
  have hcol : source? p.halo p.inputCols s.col s.tap.col = some (s.col + s.tap.col - p.halo) :=
    if_pos h.2
  rw [value, sample?_of_source? hrow hcol]
  rfl

theorem value_of_not_covers (h : ¬ p.Covers s) : p.value x s = 0 := by
  rw [value]
  by_cases hin : p.halo ≤ s.row + s.tap.row ∧ s.row + s.tap.row - p.halo < p.inputRows
  · have hcol : source? p.halo p.inputCols s.col s.tap.col = none :=
      if_neg fun hin' => h ⟨hin, hin'⟩
    rw [sample?_of_col_none hcol]
    rfl
  · have hrow : source? p.halo p.inputRows s.row s.tap.row = none := if_neg hin
    rw [sample?_of_row_none hrow]
    rfl

theorem value_congr {y : Nat → Nat → Nat → Nat → α} (hs : p.HasSite s)
    (h : ∀ b < p.batch, ∀ c < p.inChannels, ∀ i < p.inputRows, ∀ j < p.inputCols,
      x b c i j = y b c i j) : p.value x s = p.value y s := by
  by_cases hcovers : p.Covers s
  · rw [value_of_covers hcovers, value_of_covers hcovers]
    exact h _ hs.1 _ hs.2.2.2.1 _ hcovers.1.2 _ hcovers.2.2
  · rw [value_of_not_covers hcovers, value_of_not_covers hcovers]

end

end Problem

/-!
## Sites and cells
-/

namespace PatchOrder

/-- Where the sample of a site is stored. -/
def coords : PatchOrder → Site → List Nat
  | pixelChw, s => [s.batch, s.row, s.col, s.tap.channel, s.tap.row, s.tap.col]
  | pixelHwc, s => [s.batch, s.row, s.col, s.tap.row, s.tap.col, s.tap.channel]
  | channelMajor, s => [s.batch, s.tap.channel, s.tap.row, s.tap.col, s.row, s.col]

/-- Where an element of the prepared input is found. -/
def inputCoords : PatchOrder → Nat → Nat → Nat → Nat → List Nat
  | pixelHwc, b, c, y, z => [b, y, z, c]
  | pixelChw, b, c, y, z => [b, c, y, z]
  | channelMajor, b, c, y, z => [b, c, y, z]

/-- The site whose sample a cell stores. -/
def siteAt (order : PatchOrder) (p : Problem) (i : Nat) : Site :=
  match order with
  | pixelChw =>
      ⟨i / p.patchSize / p.outCols / p.outRows, i / p.patchSize / p.outCols % p.outRows,
        i / p.patchSize % p.outCols, p.tapAt .nchw (i % p.patchSize)⟩
  | pixelHwc =>
      ⟨i / p.patchSize / p.outCols / p.outRows, i / p.patchSize / p.outCols % p.outRows,
        i / p.patchSize % p.outCols, p.tapAt .nhwc (i % p.patchSize)⟩
  | channelMajor =>
      ⟨i / p.outCols / p.outRows / p.patchSize, i / p.outCols % p.outRows, i % p.outCols,
        p.tapAt .nchw (i / p.outCols / p.outRows % p.patchSize)⟩

variable {order : PatchOrder} {p : Problem} {s : Site}

theorem coords_lt (order : PatchOrder) (hs : p.HasSite s) :
    List.Forall₂ (· < ·) (order.coords s) (order.dims p) := by
  rcases hs with ⟨hbatch, hrow, hcol, hchannel, hkh, hkw⟩
  cases order <;> simp only [coords, dims, List.forall₂_cons, hbatch, hrow, hcol, hchannel, hkh,
    hkw, List.Forall₂.nil, and_self]

/-- The place of a site, by its pixel and the number of its tap. -/
theorem placeOf_coords (order : PatchOrder) (p : Problem) (s : Site) :
    placeOf (order.dims p) (order.coords s) =
      match order with
      | pixelChw =>
          rowMajor p.outRows p.outCols p.patchSize s.batch s.row s.col (p.tapIndex .nchw s.tap)
      | pixelHwc =>
          rowMajor p.outRows p.outCols p.patchSize s.batch s.row s.col (p.tapIndex .nhwc s.tap)
      | channelMajor =>
          rowMajor p.patchSize p.outRows p.outCols s.batch (p.tapIndex .nchw s.tap) s.row
            s.col := by
  cases order <;> simp only [dims, coords, placeOf, rowMajor, Problem.tapIndex, Problem.patchSize,
    List.prod_cons, List.prod_nil] <;> ring

theorem siteAt_placeOf (order : PatchOrder) (hs : p.HasSite s) :
    order.siteAt p (placeOf (order.dims p) (order.coords s)) = s := by
  rcases hs with ⟨_, hrow, hcol, htap⟩
  have hindex : ∀ layout, p.tapIndex layout s.tap < p.patchSize :=
    fun layout => Problem.tapIndex_lt layout htap
  rw [placeOf_coords]
  cases order <;> simp only [siteAt, rowMajor, add_mul_div_of_lt, add_mul_mod_of_lt, hrow, hcol,
    hindex, Problem.tapAt_tapIndex _ htap]

theorem placeOf_siteAt (order : PatchOrder) (p : Problem) (i : Nat) :
    placeOf (order.dims p) (order.coords (order.siteAt p i)) = i := by
  rw [placeOf_coords]
  cases order <;> simp only [siteAt, rowMajor, Problem.tapIndex_tapAt, Nat.div_add_mod']

theorem hasSite_siteAt (order : PatchOrder) {i : Nat}
    (hi : i < p.batch * (p.outPixels * p.patchSize)) : p.HasSite (order.siteAt p i) := by
  have hpixels : i < p.batch * p.outRows * p.outCols * p.patchSize := by
    rw [Problem.outPixels, ← Nat.mul_assoc, ← Nat.mul_assoc] at hi
    exact hi
  have hplanes : i < p.batch * p.patchSize * p.outRows * p.outCols := by
    rw [Nat.mul_comm p.outPixels, Problem.outPixels, ← Nat.mul_assoc, ← Nat.mul_assoc] at hi
    exact hi
  cases order with
  | pixelChw =>
      rcases decode_lt hpixels with ⟨hbatch, hrow, hcol, htap⟩
      exact ⟨hbatch, hrow, hcol, Problem.hasTap_tapAt .nchw htap⟩
  | pixelHwc =>
      rcases decode_lt hpixels with ⟨hbatch, hrow, hcol, htap⟩
      exact ⟨hbatch, hrow, hcol, Problem.hasTap_tapAt .nhwc htap⟩
  | channelMajor =>
      rcases decode_lt hplanes with ⟨hbatch, htap, hrow, hcol⟩
      exact ⟨hbatch, hrow, hcol, Problem.hasTap_tapAt .nchw htap⟩

section

variable [Zero α]

theorem cells_eq_value (order : PatchOrder) (p : Problem) (x : Nat → Nat → Nat → Nat → α)
    (i : Nat) : order.cells p x i = p.value x (order.siteAt p i) := by
  cases order <;> rfl

theorem get_cells {shape : Shape} (hdims : shape.dims = order.dims p)
    (x : Nat → Nat → Nat → Nat → α) (hs : p.HasSite s) :
    (Tensor.ofCells shape (order.cells p x)).get (order.coords s) = .ok (p.value x s) := by
  have hcoords : List.Forall₂ (· < ·) (order.coords s) shape.dims := by
    rw [hdims]
    exact coords_lt order hs
  rcases Shape.flatIndex_of_lt hcoords with ⟨hindex, hlt⟩
  show (shape.flatIndex (order.coords s) >>= fun i => fetch (tabulate _ _) i) = _
  rw [hindex, ok_bind, fetch_tabulate hlt, hdims, cells_eq_value, siteAt_placeOf order hs]

/-- The scratch tensors of two orders hold the same values in different places. -/
theorem cells_perm (order order' : PatchOrder) {x y : Nat → Nat → Nat → Nat → α}
    (h : ∀ s, p.HasSite s → p.value x s = p.value y s) {length : Nat}
    (hlength : length = p.batch * (p.outPixels * p.patchSize)) :
    (tabulate length (order.cells p x)).toList.Perm
      (tabulate length (order'.cells p y)).toList := by
  subst hlength
  -- A cell goes to where the other order stores the sample of its site.
  apply tabulate_perm fun i => placeOf (order'.dims p) (order'.coords (order.siteAt p i))
  · intro i hi
    rw [← prod_dims order' p]
    exact placeOf_lt (coords_lt order' (hasSite_siteAt order hi))
  · intro i hi j hj hEq
    have hsite : order.siteAt p i = order.siteAt p j := by
      rw [← siteAt_placeOf order' (hasSite_siteAt order hi), hEq,
        siteAt_placeOf order' (hasSite_siteAt order hj)]
    rw [← placeOf_siteAt order p i, hsite, placeOf_siteAt]
  · intro i hi
    have hs := hasSite_siteAt order hi
    rw [cells_eq_value, cells_eq_value, siteAt_placeOf order' hs, h _ hs]

end

/-!
## Inputs
-/

section

variable [Zero α]

/-- The prepared input that a tensor in the axes of the order holds. -/
def view (order : PatchOrder) (input : Tensor α) (b c y z : Nat) : α :=
  match order with
  | pixelHwc => input.cell b y z c
  | pixelChw => input.cell b c y z
  | channelMajor => input.cell b c y z

theorem holds_view {input : Tensor α} (hinput : input.dims = order.inputDims p) :
    p.HoldsInput order.source input.data (order.view input) := by
  cases order with
  | pixelChw =>
      exact Tensor.holds_cell hinput
  | pixelHwc =>
      exact Tensor.holds_cell hinput
  | channelMajor =>
      exact Tensor.holds_cell hinput

theorem get_view {input : Tensor α} (hinput : input.dims = order.inputDims p) {b c y z : Nat}
    (hb : b < p.batch) (hc : c < p.inChannels) (hy : y < p.inputRows) (hz : z < p.inputCols) :
    input.get (order.inputCoords b c y z) = .ok (order.view input b c y z) := by
  have hholds := holds_view hinput
  cases order with
  | pixelChw =>
      exact Tensor.get_of_holds hinput hholds hb hc hy hz
  | pixelHwc =>
      exact Tensor.get_of_holds hinput hholds hb hy hz hc
  | channelMajor =>
      exact Tensor.get_of_holds hinput hholds hb hc hy hz

end

/-- Two tensors, each in the axes of its order, hold the same prepared input. -/
structure SameInput (p : Problem) (order order' : PatchOrder) (input input' : Tensor α) :
    Prop where
  dims_eq : input.dims = order.inputDims p
  dims_eq' : input'.dims = order'.inputDims p
  get_eq : ∀ b < p.batch, ∀ c < p.inChannels, ∀ y < p.inputRows, ∀ z < p.inputCols,
    input.get (order.inputCoords b c y z) = input'.get (order'.inputCoords b c y z)

section

variable [Zero α]

theorem SameInput.value_eq {order' : PatchOrder} {input input' : Tensor α}
    (h : SameInput p order order' input input') (hs : p.HasSite s) :
    p.value (order.view input) s = p.value (order'.view input') s := by
  apply Problem.value_congr hs
  intro b hb c hc y hy z hz
  have hget := h.get_eq b hb c hc y hy z hz
  rw [get_view h.dims_eq hb hc hy hz, get_view h.dims_eq' hb hc hy hz] at hget
  exact Except.ok.inj hget

/-- An NCHW input and its copy in NHWC order. -/
theorem sameInput_toNhwc {input copy : Tensor α} (horder : order ≠ .pixelHwc)
    (hinput : input.dims = order.inputDims p) (hcopy : input.toNhwcPadded 0 = .ok copy) :
    SameInput p order .pixelHwc input copy := by
  have hdims : input.dims = [p.batch, p.inChannels, p.inputRows, p.inputCols] := by
    cases order with
    | pixelHwc =>
        exact absurd rfl horder
    | pixelChw =>
        exact hinput
    | channelMajor =>
        exact hinput
  rcases Tensor.of_toNhwcPadded hdims (Tensor.holds_cell hdims) hcopy with ⟨hdims', hholds⟩
  refine ⟨hinput, hdims', ?_⟩
  intro b hb c hc y hy z hz
  have hget : copy.get [b, y, z, c] = .ok (input.cell b c y z) := by
    rw [Tensor.get_of_holds hdims' hholds hb hy hz hc, Tensor.bordering_zero hy hz]
  have hsource : input.get [b, c, y, z] = .ok (input.cell b c y z) :=
    Tensor.get_of_holds hdims (Tensor.holds_cell hdims) hb hc hy hz
  cases order with
  | pixelHwc =>
      exact absurd rfl horder
  | pixelChw =>
      exact hsource.trans hget.symm
  | channelMajor =>
      exact hsource.trans hget.symm

end

end PatchOrder

/-!
## Problems of created buffers
-/

namespace Problem

variable {p : Problem}

theorem reach_le_mul {input out kernel : Nat} (hout : 0 < out) (hkernel : 0 < kernel)
    (h : input ≤ out + (kernel - 1)) : input ≤ out * kernel := by
  have hsize : out * kernel = out * (kernel - 1) + out := by
    rw [← Nat.mul_succ, Nat.succ_eq_add_one, Nat.sub_add_cancel hkernel]
  have hle := Nat.le_mul_of_pos_left (kernel - 1) hout
  omega

/-- The prepared input has at most as many rows as the taps of one column of output positions. -/
theorem Expandable.inputRows_le (hp : p.Expandable) : p.inputRows ≤ p.outRows * p.kernel := by
  apply reach_le_mul hp.outRows_pos hp.kernel_pos
  cases hpadding : p.padding with
  | valid =>
      have hfits := hp.fits hpadding
      simp only [inputRows, outRows, border, hpadding]
      omega
  | prepad =>
      simp only [inputRows, outRows, border, halfKernel, hpadding]
      omega
  | inline =>
      simp only [inputRows, outRows, border, hpadding]
      omega

theorem Expandable.inputCols_le (hp : p.Expandable) : p.inputCols ≤ p.outCols * p.kernel := by
  apply reach_le_mul hp.outCols_pos hp.kernel_pos
  cases hpadding : p.padding with
  | valid =>
      have hfits := hp.fits hpadding
      simp only [inputCols, outCols, border, hpadding]
      omega
  | prepad =>
      simp only [inputCols, outCols, border, halfKernel, hpadding]
      omega
  | inline =>
      simp only [inputCols, outCols, border, hpadding]
      omega

/-- The input is not larger than the scratch tensor. -/
theorem Expandable.contained (hp : p.Expandable)
    (hlt : p.batch * (p.outPixels * p.patchSize) < Size.bufferLimit) : p.Contained := by
  have helement := Nat.le_mul_of_pos_left (p.outPixels * p.patchSize) hp.batch_pos
  have hpatch := Nat.le_mul_of_pos_left p.patchSize hp.outPixels_pos
  have hpixels := Nat.le_mul_of_pos_right p.outPixels hp.patchSize_pos
  have hplane := Nat.mul_le_mul hp.inputRows_le hp.inputCols_le
  have hinput := Nat.mul_le_mul_left (p.batch * p.inChannels) hplane
  have hsize : p.batch * p.inChannels * (p.outRows * p.kernel * (p.outCols * p.kernel)) =
      p.batch * (p.outPixels * p.patchSize) := by
    rw [outPixels, patchSize]
    ring
  rw [hsize, ← Nat.mul_assoc] at hinput
  exact ⟨hp, by omega, by omega, by omega⟩

end Problem

namespace PatchBuffer

variable [Zero α] {order : PatchOrder} {p : Problem} {fresh : PatchBuffer α}

/-- What a buffer was created for has positive extents, and a kernel that fits. -/
theorem expandable_of_create (h : create order p = .ok fresh)
    (hodd : p.padding = .prepad → p.kernel % 2 = 1) : p.Expandable := by
  rcases fault_step h with ⟨_, hfits, h⟩
  rcases bind_eq_ok h with ⟨patches, hpatches, _⟩
  have houtput := of_check hfits
  have hdims : patches.shape.dims = order.dims p := (Tensor.zeros_ok hpatches).1
  have hzero := patches.shape.dims_ne_zero
  rw [hdims] at hzero
  have hpos : 0 < p.batch ∧ 0 < p.inChannels ∧ 0 < p.kernel ∧ 0 < p.outRows ∧ 0 < p.outCols := by
    cases order <;> simp [PatchOrder.dims] at hzero <;> omega
  rcases hpos with ⟨hbatch, hchannels, hkernel, hrows, hcols⟩
  have hextents : 0 < p.height ∧ 0 < p.width := by
    cases hpadding : p.padding with
    | valid =>
        have hle := houtput.1 hpadding
        omega
    | prepad =>
        simp only [Problem.outRows, Problem.outCols, hpadding] at hrows hcols
        exact ⟨hrows, hcols⟩
    | inline =>
        simp only [Problem.outRows, Problem.outCols, hpadding] at hrows hcols
        exact ⟨hrows, hcols⟩
  exact ⟨hbatch, hchannels, hextents.1, hextents.2, hkernel, hodd, houtput.1⟩

theorem contained_of_create (h : create order p = .ok fresh)
    (hodd : p.padding = .prepad → p.kernel % 2 = 1) : p.Contained :=
  (expandable_of_create h hodd).contained (fits_of_create h).fits_memory

end PatchBuffer

/-!
## Expansions in place
-/

namespace Word

/-- Runs an action on the scratch tensor.  What it writes before a fault stays written. -/
def onScratch (act : (length : Nat) → BufferM α length Unit) :
    EStateM Failure (PatchBuffer α) Unit := fun buffer =>
  match act _ buffer.patches.toVector with
  | .ok _ v => .ok () { buffer with patches := .ofVector buffer.patches.shape v }
  | .error fault v =>
      .error (.fault fault) { buffer with patches := .ofVector buffer.patches.shape v }

variable [Zero α]

/-- The expansion as a change of the scratch buffer, with all size operations checked. -/
def overwrite (schedule : Schedule) (input : Tensor α) :
    EStateM Failure (PatchBuffer α) Unit := do
  let buffer ← get
  let p := buffer.problem
  let order := buffer.order
  MonadExcept.ofExcept (liftM (measure p) : Outcome Unit)
  let expected := order.inputDims p
  if input.shape.validate (expected.map .exactly) then
    let chunk ← MonadExcept.ofExcept (liftM (p.outPixels * p.patchSize : Offset).eval : Outcome Nat)
    onScratch fun _ => BufferM.onChunks schedule chunk (patchTask order p input.data)
  else
    throw (.error (.shapeMismatch (.patchInput order expected input.dims)))

section

variable {schedule : Schedule} {buffer filled : PatchBuffer α} {input : Tensor α}

/-- An expansion that succeeds leaves the expanded buffer. -/
theorem overwrite_ok (h : expand schedule buffer input = .ok filled) :
    overwrite schedule input buffer = .ok () filled := by
  rcases fault_step h with ⟨_, hmeasure, h⟩
  rw [overwrite, get_run, bind_run (lift_run hmeasure buffer)]
  dsimp only at h
  split at h
  · rename_i hvalid
    rcases fault_step h with ⟨chunk, hchunk, h⟩
    rcases fault_step h with ⟨patches, hpatches, h⟩
    rcases bind_eq_ok hpatches with ⟨v, hv, hpatches⟩
    cases hpatches
    cases h
    rw [if_pos hvalid, bind_run (lift_run hchunk buffer), onScratch]
    unfold BufferM.run at hv
    split at hv
    · rename_i hrun
      cases hv
      rw [hrun]
    · cases hv
  · cases h

/-- An expansion of other extents is refused before anything is written. -/
theorem overwrite_refused (hmeasure : measure buffer.problem = .ok ())
    (hdims : input.dims ≠ buffer.order.inputDims buffer.problem) :
    overwrite schedule input buffer =
      .error (.error (.shapeMismatch
        (.patchInput buffer.order (buffer.order.inputDims buffer.problem) input.dims))) buffer := by
  have hvalid := mt Shape.validate_exactly_iff.mp hdims
  rw [overwrite, get_run, bind_run (lift_run hmeasure buffer), if_neg hvalid]
  rfl

end

end Word

/-!
## Scratch tensors after an expansion
-/

namespace PatchBuffer

/-- Every cell stores the sample of a site: the element of the prepared input under the tap, or
zero where the tap lies outside. -/
structure Shows [Zero α] (buffer : PatchBuffer α) (order : PatchOrder) (p : Problem)
    (input : Tensor α) : Prop where
  order_eq : buffer.order = order
  problem_eq : buffer.problem = p
  dims_eq : buffer.patches.dims = order.dims p
  every_cell : ∀ i < buffer.patches.data.size, ∃ s, p.HasSite s ∧
    buffer.patches.shape.flatIndex (order.coords s) = .ok i
  inside : ∀ s, p.HasSite s → p.Covers s → ∃ v,
    buffer.patches.get (order.coords s) = .ok v ∧
      input.get (order.inputCoords s.batch s.tap.channel (s.row + s.tap.row - p.halo)
        (s.col + s.tap.col - p.halo)) = .ok v
  outside : ∀ s, p.HasSite s → ¬ p.Covers s → buffer.patches.get (order.coords s) = .ok 0

/-- An expansion of the input leaves `filled`, whatever the scratch tensor held before. -/
structure Overwrites [Zero α] (fresh : PatchBuffer α) (input : Tensor α)
    (filled : PatchBuffer α) : Prop where
  expand_eq : ∀ patches : Tensor α, patches.dims = fresh.patches.dims → ∀ schedule,
    expand schedule { fresh with patches } input = .ok filled
  overwrite_eq : ∀ patches : Tensor α, patches.dims = fresh.patches.dims → ∀ schedule,
    Word.overwrite schedule input { fresh with patches } = .ok () filled

variable [Zero α] {order : PatchOrder} {p : Problem} {fresh : PatchBuffer α} {input : Tensor α}

omit [Zero α] in
theorem Fits.with_patches (h : fresh.Fits order p) {patches : Tensor α}
    (hdims : patches.dims = fresh.patches.dims) :
    PatchBuffer.Fits { fresh with patches } order p :=
  ⟨h.order_eq, h.problem_eq, hdims.trans h.dims_eq, h.fits_memory⟩

theorem Fits.shows (h : fresh.Fits order p) (hinput : input.dims = order.inputDims p) :
    (fresh.filled (order.view input)).Shows order p input := by
  have hsize := (h.filled (order.view input)).size_eq
  rcases h with ⟨horder, hproblem, hdims, _⟩
  subst horder hproblem
  have hget {s : Site} (hs : fresh.problem.HasSite s) :=
    PatchOrder.get_cells hdims (fresh.order.view input) hs
  refine ⟨rfl, rfl, hdims, ?_, ?_, ?_⟩
  · intro i hi
    rw [hsize] at hi
    have hs := PatchOrder.hasSite_siteAt fresh.order hi
    have hcoords := PatchOrder.coords_lt fresh.order hs
    rw [← hdims] at hcoords
    refine ⟨_, hs, (Shape.flatIndex_of_lt hcoords).1.trans ?_⟩
    show Except.ok (placeOf fresh.patches.dims _) = _
    rw [hdims, PatchOrder.placeOf_siteAt]
  · intro s hs hcovers
    refine ⟨_, hget hs, ?_⟩
    rw [Problem.value_of_covers hcovers]
    exact PatchOrder.get_view hinput hs.1 hs.2.2.2.1 hcovers.1.2 hcovers.2.2
  · intro s hs hcovers
    rw [← Problem.value_of_not_covers hcovers]
    exact hget hs

theorem Fits.overwrites (h : fresh.Fits order p) (hp : p.Contained)
    (hinput : input.dims = order.inputDims p) :
    fresh.Overwrites input (fresh.filled (order.view input)) := by
  have hexpand : ∀ patches : Tensor α, patches.dims = fresh.patches.dims → ∀ schedule,
      expand schedule { fresh with patches } input =
        .ok (fresh.filled (order.view input)) := by
    intro patches hdims schedule
    have hshape : patches.shape = fresh.patches.shape := Shape.ext_dims hdims
    rw [(h.with_patches hdims).expand_ok schedule hp.expandable hinput
      (PatchOrder.holds_view hinput)]
    rw [PatchBuffer.filled, PatchBuffer.filled, hshape]
  refine ⟨hexpand, ?_⟩
  intro patches hdims schedule
  apply Word.overwrite_ok
  rw [Word.expand_eq (h.with_patches hdims) hp]
  exact hexpand patches hdims schedule

/-- The expansion of an input of any other extents is refused and changes nothing. -/
theorem Fits.refuses (h : fresh.Fits order p) (hp : p.Contained)
    (hinput : input.dims ≠ order.inputDims p) {patches : Tensor α} (schedule : Schedule) :
    expand schedule { fresh with patches } input =
        .error (.error (.shapeMismatch (.patchInput order (order.inputDims p) input.dims))) ∧
      Word.overwrite schedule input { fresh with patches } =
        .error (.error (.shapeMismatch (.patchInput order (order.inputDims p) input.dims)))
          { fresh with patches } := by
  rcases h with ⟨horder, hproblem, _, _⟩
  subst horder hproblem
  constructor
  · have hvalid := mt Shape.validate_exactly_iff.mp hinput
    rw [expand]
    dsimp only
    rw [if_neg hvalid]
    rfl
  · exact Word.overwrite_refused (Word.measure_ok hp) hinput

/-- The expansions of one input in two orders. -/
theorem Fits.perm {order' : PatchOrder} {fresh' : PatchBuffer α} {input' : Tensor α}
    (h : fresh.Fits order p) (h' : fresh'.Fits order' p)
    (hsame : PatchOrder.SameInput p order order' input input') :
    (∀ s, p.HasSite s →
      (fresh'.filled (order'.view input')).patches.get (order'.coords s) =
        (fresh.filled (order.view input)).patches.get (order.coords s)) ∧
      (fresh'.filled (order'.view input')).patches.data.toList.Perm
        (fresh.filled (order.view input)).patches.data.toList := by
  have hsize := h.total_eq
  have hsize' := h'.total_eq
  rcases h with ⟨horder, hproblem, hdims, _⟩
  rcases h' with ⟨horder', hproblem', hdims', _⟩
  subst horder horder' hproblem
  constructor
  · intro s hs
    rw [PatchBuffer.filled, PatchBuffer.filled, hproblem']
    dsimp only
    rw [PatchOrder.get_cells hdims _ hs, PatchOrder.get_cells hdims' _ hs, hsame.value_eq hs]
  · rw [PatchBuffer.filled, PatchBuffer.filled, hproblem']
    show (tabulate fresh'.patches.shape.total _).toList.Perm
      (tabulate fresh.patches.shape.total _).toList
    rw [hsize, hsize']
    exact PatchOrder.cells_perm _ _ (fun s hs => (hsame.value_eq hs).symm) rfl

/-- After the expansion of an input of the expected extents every cell of the scratch tensor is the
sample of its site, whatever the tensor held before, and any other axis order stores the same
samples in different cells.  An input of any other extents is refused and changes nothing.  Only
an inline border leaves taps outside of the prepared input. -/
theorem expansion_of_create (hcreate : create order p = .ok fresh)
    (hodd : p.padding = .prepad → p.kernel % 2 = 1) (input : Tensor α) :
    (input.dims = order.inputDims p →
      ∃ filled, fresh.Overwrites input filled ∧ filled.Shows order p input ∧
        ∀ order' input', PatchOrder.SameInput p order order' input input' →
          ∃ fresh' filled', create order' p = .ok fresh' ∧ fresh'.Overwrites input' filled' ∧
            filled'.Shows order' p input' ∧
            (∀ s, p.HasSite s →
              filled'.patches.get (order'.coords s) = filled.patches.get (order.coords s)) ∧
            filled'.patches.data.toList.Perm filled.patches.data.toList) ∧
    (input.dims ≠ order.inputDims p → ∀ patches : Tensor α, ∀ schedule,
      expand schedule { fresh with patches } input =
          .error (.error (.shapeMismatch (.patchInput order (order.inputDims p) input.dims))) ∧
        Word.overwrite schedule input { fresh with patches } =
          .error (.error (.shapeMismatch (.patchInput order (order.inputDims p) input.dims)))
            { fresh with patches }) ∧
    (p.padding ≠ .inline → ∀ s, p.HasSite s → p.Covers s) := by
  have hp := expandable_of_create hcreate hodd
  have hcontained := contained_of_create hcreate hodd
  have hfits := fits_of_create hcreate
  refine ⟨?_, ?_, fun hpad s hs => hp.covers hpad hs⟩
  · intro hinput
    refine ⟨_, hfits.overwrites hcontained hinput, hfits.shows hinput, ?_⟩
    intro order' input' hsame
    rcases fault_step hcreate with ⟨_, houtput, _⟩
    rcases exists_create (α := α) order' hp (of_check houtput) hfits.fits_memory with
      ⟨fresh', hcreate'⟩
    have hfits' := fits_of_create hcreate'
    rcases hfits.perm hfits' hsame with ⟨hget, hperm⟩
    exact ⟨fresh', _, hcreate', hfits'.overwrites hcontained hsame.dims_eq',
      hfits'.shows hsame.dims_eq', hget, hperm⟩
  · intro hinput patches schedule
    exact hfits.refuses hcontained hinput schedule

end PatchBuffer

/-- A `2 × 2` kernel on a `2 × 3` plane: its taps leave the plane below and to the right only. -/
def Problem.evenKernel : Problem where
  batch := 1
  inChannels := 1
  outChannels := 1
  height := 2
  width := 3
  kernel := 2
  padding := .inline

/-- One plane: `1 -0 2` over `∞ NaN 1`. -/
def Tensor.irregularOblong : Tensor Binary32 where
  shape := ⟨[1, 1, 2, 3], [6, 6, 3, 1], 6, by decide, by decide, by decide⟩
  data := #[1, ⟨0x80000000⟩, ⟨0x40000000⟩, ⟨0x7f800000⟩, ⟨0x7fc00000⟩, 1]
  size_eq := rfl

/-- The second tap of the first position is a negative zero of the input, the third tap of the
last row lies outside and is a positive zero. -/
theorem PatchBuffer.expansion_of_even_kernel :
    ∃ fresh filled : PatchBuffer Binary32, create .channelMajor .evenKernel = .ok fresh ∧
      fresh.Overwrites .irregularOblong filled ∧
      filled.patches.get [0, 0, 0, 1, 0, 0] = .ok ⟨0x80000000⟩ ∧
      filled.patches.get [0, 0, 1, 0, 1, 0] = .ok ⟨0⟩ := by
  have hok : (create .channelMajor .evenKernel : Outcome (PatchBuffer Binary32)).isOk = true := by
    decide +kernel
  rcases exists_of_isOk hok with ⟨fresh, hcreate⟩
  rcases (expansion_of_create hcreate (by decide) .irregularOblong).1 rfl with
    ⟨filled, hoverwrites, hshows, _⟩
  have hsecond : Problem.evenKernel.HasSite ⟨0, 0, 0, ⟨0, 0, 1⟩⟩ := by
    refine ⟨?_, ?_, ?_, ?_, ?_, ?_⟩ <;> decide
  have hthird : Problem.evenKernel.HasSite ⟨0, 1, 0, ⟨0, 1, 0⟩⟩ := by
    refine ⟨?_, ?_, ?_, ?_, ?_, ?_⟩ <;> decide
  have hcovers : Problem.evenKernel.Covers ⟨0, 0, 0, ⟨0, 0, 1⟩⟩ := by
    refine ⟨⟨?_, ?_⟩, ?_, ?_⟩ <;> decide
  have houtside : ¬ Problem.evenKernel.Covers ⟨0, 1, 0, ⟨0, 1, 0⟩⟩ := by
    rintro ⟨⟨_, hlt⟩, _⟩
    exact absurd hlt (by decide)
  rcases hshows.inside _ hsecond hcovers with ⟨v, hv, hinput⟩
  have hvalue : Tensor.irregularOblong.get [0, 0, 0, 1] = .ok ⟨0x80000000⟩ := by decide
  cases hinput.symm.trans hvalue
  exact ⟨fresh, filled, hcreate, hoverwrites, hv, hshows.outside _ hthird houtside⟩

end ConvSweep
