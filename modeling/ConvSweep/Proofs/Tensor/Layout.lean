import Mathlib
import ConvSweep.Proofs.Outcome
import ConvSweep.Proofs.Tensor.Cells
import ConvSweep.Tensor.Layout

/-!
# Updates, axis orders and borders

A tensor after an action that fills its buffer is the tensor of the stored values.
The conversions between axis orders show the same view in another order, and the
copies with a border show it shifted by the border and zero outside.
-/

namespace ConvSweep

open BufferM Loop

variable {α : Type}

namespace Tensor

/-- The tensor of `f 0`, `f 1`, … in row-major order. -/
def ofCells (shape : Shape) (f : Nat → α) : Tensor α :=
  ⟨shape, tabulate shape.total f, size_tabulate _ _⟩

theorem ext_data {s t : Tensor α} (hdims : s.dims = t.dims) (hdata : s.data = t.data) :
    s = t := by
  rcases s with ⟨shape, data, hs⟩
  rcases t with ⟨shape', data', ht⟩
  have hshape : shape = shape' := Shape.ext_dims hdims
  subst hshape
  have hsame : data = data' := hdata
  subst hsame
  rfl

theorem size_quad {t : Tensor α} {d₀ d₁ d₂ d₃ : Nat} (hdims : t.dims = [d₀, d₁, d₂, d₃]) :
    t.data.size = d₀ * d₁ * d₂ * d₃ := by
  rw [t.size_eq, Shape.total_quad hdims]

/-- A tensor of rank four is determined by its elements. -/
theorem eq_of_holds {s t : Tensor α} {d₀ d₁ d₂ d₃ : Nat} {x : Nat → Nat → Nat → Nat → α}
    (hs : s.dims = [d₀, d₁, d₂, d₃]) (ht : t.dims = [d₀, d₁, d₂, d₃])
    (hsx : Holds s.data d₀ d₁ d₂ d₃ x) (htx : Holds t.data d₀ d₁ d₂ d₃ x) : s = t := by
  apply ext_data
  · rw [hs, ht]
  · exact hsx.unique htx fun _ _ _ _ _ _ _ _ => rfl

theorem ofCells_congr {shape : Shape} {f g : Nat → α} (h : ∀ i < shape.total, f i = g i) :
    ofCells shape f = ofCells shape g :=
  ext_data rfl (tabulate_congr h)

/-!
## Construction
-/

theorem data_filled {dims : List Nat} {x : α} {t : Tensor α} (h : filled dims x = .ok t) :
    t.dims = dims ∧ t.data = Array.replicate dims.prod x ∧ dims.prod < Size.bufferLimit := by
  rcases error_step h with ⟨shape, hshape, h⟩
  rcases fault_step h with ⟨_, hreserve, h⟩
  have hdims := Shape.dims_ofDims hshape
  have htotal : shape.total = dims.prod := by
    rw [Shape.total_eq_prod, hdims]
  have hfits := of_check hreserve
  cases h
  rw [← htotal]
  exact ⟨hdims, rfl, hfits⟩

theorem data_ofArray {dims : List Nat} {data : Array α} {t : Tensor α}
    (h : ofArray dims data = .ok t) : t.dims = dims ∧ t.data = data := by
  rcases bind_eq_ok h with ⟨shape, hshape, h⟩
  split at h
  · cases h
    exact ⟨Shape.dims_ofDims hshape, rfl⟩
  · cases h

theorem data_ofPrefix {dims : List Nat} {source : Array α} {t : Tensor α}
    (h : ofPrefix dims source = .ok t) :
    t.dims = dims ∧ t.data = source.extract 0 dims.prod := by
  rcases bind_eq_ok h with ⟨shape, hshape, h⟩
  split at h
  · cases h
    have hdims := Shape.dims_ofDims hshape
    refine ⟨hdims, ?_⟩
    show source.extract 0 shape.total = _
    rw [Shape.total_eq_prod, hdims]
  · cases h

theorem exists_ofArray {dims : List Nat} {data : Array α} (hnil : dims ≠ []) (hpos : 0 ∉ dims)
    (hprod : dims.prod < Size.limit) (hsize : data.size = dims.prod) :
    ∃ t, ofArray dims data = .ok t := by
  rcases Shape.ofDims_of_prod hnil hpos hprod with ⟨shape, hshape, hdims⟩
  have htotal : data.size = shape.total := by
    rw [Shape.total_eq_prod, hdims, hsize]
  rw [ofArray, hshape, ok_bind, dif_pos htotal]
  exact ⟨_, rfl⟩

theorem exists_ofPrefix {dims : List Nat} {source : Array α} (hnil : dims ≠ []) (hpos : 0 ∉ dims)
    (hprod : dims.prod < Size.limit) (hle : dims.prod ≤ source.size) :
    ∃ t, ofPrefix dims source = .ok t := by
  rcases Shape.ofDims_of_prod hnil hpos hprod with ⟨shape, hshape, hdims⟩
  have htotal : shape.total ≤ source.size := by
    rw [Shape.total_eq_prod, hdims]
    exact hle
  rw [ofPrefix, hshape, ok_bind, dif_pos htotal]
  exact ⟨_, rfl⟩

theorem size_lt_limit (t : Tensor α) : t.data.size < Size.limit := by
  rw [t.size_eq]
  exact t.shape.total_lt_limit

/-!
## Updates
-/

theorem update_acts {t : Tensor α} {act : BufferM α t.shape.total Unit} {g : Nat → α → α}
    (h : Acts act g) : t.update act = .ok (ofVector t.shape (t.toVector.mapIdx g)) := by
  unfold update
  rw [Acts.run h]
  rfl

theorem update_fills {t : Tensor α} {act : BufferM α t.shape.total Unit} {f : Nat → α}
    (h : Fills act f) : t.update act = .ok (ofCells t.shape f) := by
  rw [update_acts h]
  congr 1
  apply ext_data
  · rfl
  · apply Array.ext
    · simp [ofVector, ofCells]
    · intro i _ _
      simp [ofVector, ofCells]

theorem update_constant {shape : Shape} {x : α} {act : BufferM α shape.total Unit}
    {g : Nat → α → α} (h : Acts act g) :
    (constant shape x).update act = .ok (ofCells shape fun i => g i x) := by
  rw [update_acts (t := constant shape x) h]
  congr 1
  apply ext_data
  · rfl
  · apply Array.ext
    · simp [ofVector, ofCells, constant]
    · intro i _ _
      simp [ofVector, ofCells, constant, toVector]

section

variable [Zero α]

theorem zeros_ok {dims : List Nat} {t : Tensor α} (h : zeros dims = .ok t) :
    t.dims = dims ∧ dims.prod < Size.bufferLimit := by
  rcases data_filled h with ⟨hdims, _, hprod⟩
  exact ⟨hdims, hprod⟩

theorem zeros_of_prod {dims : List Nat} (hnil : dims ≠ []) (hpos : 0 ∉ dims)
    (hprod : dims.prod < Size.bufferLimit) :
    ∃ shape, shape.dims = dims ∧ (zeros dims : Outcome (Tensor α)) = .ok (constant shape 0) := by
  rcases Shape.ofDims_of_prod hnil hpos (Nat.lt_trans hprod Size.bufferLimit_lt_limit) with
    ⟨shape, hshape, hdims⟩
  refine ⟨shape, hdims, ?_⟩
  have htotal : shape.total < Size.bufferLimit := by
    rw [Shape.total_eq_prod, hdims]
    exact hprod
  rw [zeros, filled, hshape]
  show ((liftM (Size.reserve shape.total) : Outcome Unit) >>= _) = _
  rw [Size.reserve_of_lt htotal]
  rfl

theorem prod_lt_of_build {dims : List Nat} {act : (n : Nat) → BufferM α n Unit} {t : Tensor α}
    (h : build dims act = .ok t) : dims.prod < Size.bufferLimit := by
  rcases bind_eq_ok h with ⟨blank, hblank, _⟩
  exact (zeros_ok hblank).2

/-- Only the actions on buffers that can be allocated matter. -/
theorem build_congr {dims : List Nat} {act act' : (n : Nat) → BufferM α n Unit}
    (h : dims.prod < Size.bufferLimit → ∀ n, act n = act' n) :
    (build dims act : Outcome (Tensor α)) = build dims act' := by
  rw [build, build]
  cases hblank : (zeros dims : Outcome (Tensor α)) with
  | error failure =>
      rfl
  | ok blank =>
      rw [ok_bind, ok_bind, h (zeros_ok hblank).2]

theorem build_acts {dims : List Nat} {act : (n : Nat) → BufferM α n Unit} {g : Nat → α → α}
    (hnil : dims ≠ []) (hpos : 0 ∉ dims) (hprod : dims.prod < Size.bufferLimit)
    (h : Acts (act dims.prod) g) :
    ∃ t, build dims act = .ok t ∧ t.dims = dims ∧
      t.data = tabulate dims.prod fun i => g i 0 := by
  rcases zeros_of_prod (α := α) hnil hpos hprod with ⟨shape, hdims, hzeros⟩
  have htotal : shape.total = dims.prod := by
    rw [Shape.total_eq_prod, hdims]
  have hact : Acts (act shape.total) g := by
    rw [htotal]
    exact h
  refine ⟨ofCells shape fun i => g i 0, ?_, hdims, ?_⟩
  · rw [build, hzeros]
    show (liftM ((constant shape 0).update (act shape.total)) : Outcome (Tensor α)) = _
    rw [update_constant hact]
    rfl
  · rw [← htotal]
    rfl

/-- Storing the nonzero cells of a view in a buffer of zeros makes the buffer show the view. -/
theorem build_puts {d₀ d₁ d₂ d₃ : Nat} {act : (n : Nat) → BufferM α n Unit} {S : Nat → Prop}
    {x : Nat → Nat → Nat → Nat → α} (hpos : 0 ∉ [d₀, d₁, d₂, d₃])
    (hprod : d₀ * d₁ * d₂ * d₃ < Size.bufferLimit)
    (h : Puts (act (d₀ * d₁ * d₂ * d₃)) S (spread d₁ d₂ d₃ x))
    (hzero : ∀ i < d₀ * d₁ * d₂ * d₃, ¬ S i → spread d₁ d₂ d₃ x i = 0) :
    ∃ t, build [d₀, d₁, d₂, d₃] act = .ok t ∧ t.dims = [d₀, d₁, d₂, d₃] ∧
      Holds t.data d₀ d₁ d₂ d₃ x := by
  have hlist : [d₀, d₁, d₂, d₃].prod = d₀ * d₁ * d₂ * d₃ := by
    simp [Nat.mul_assoc]
  rw [← hlist] at h hprod hzero
  rcases build_acts (by simp) hpos hprod h with ⟨t, ht, hdims, hdata⟩
  refine ⟨t, ht, hdims, ?_⟩
  have hcells : t.data = tabulate (d₀ * d₁ * d₂ * d₃) (spread d₁ d₂ d₃ x) := by
    rw [hdata, ← hlist]
    apply tabulate_congr
    intro i hi
    by_cases hS : S i
    · exact store_of_mem hS 0
    · rw [store_of_not_mem hS, hzero i hi hS]
  rw [hcells]
  exact holds_tabulate d₀ d₁ d₂ d₃ x

end

/-!
## Elements
-/

/-- The element of a tensor of rank four; zero outside of its buffer. -/
def cell [Zero α] (t : Tensor α) (a b c d : Nat) : α :=
  match t.get [a, b, c, d] with
  | .ok x => x
  | .error _ => 0

theorem get_of_holds {t : Tensor α} {d₀ d₁ d₂ d₃ : Nat} {x : Nat → Nat → Nat → Nat → α}
    (hdims : t.dims = [d₀, d₁, d₂, d₃]) (h : Holds t.data d₀ d₁ d₂ d₃ x) {a b c d : Nat}
    (ha : a < d₀) (hb : b < d₁) (hc : c < d₂) (hd : d < d₃) :
    t.get [a, b, c, d] = .ok (x a b c d) := by
  have hplace := rowMajor_lt ha hb hc hd
  have hlimit := t.shape.total_lt_limit
  rw [Shape.total_quad hdims] at hlimit
  rw [get, Shape.flatIndex_quad hdims, Size.checked_of_lt (by omega)]
  exact h.fetch_eq ha hb hc hd rfl

theorem cell_mem_or_zero [Zero α] (t : Tensor α) (a b c d : Nat) :
    t.cell a b c d ∈ t.data ∨ t.cell a b c d = 0 := by
  rw [cell]
  cases hget : t.get [a, b, c, d] with
  | error fault =>
      exact Or.inr rfl
  | ok x =>
      rcases bind_eq_ok hget with ⟨i, _, hfetch⟩
      left
      unfold fetch at hfetch
      cases hx : t.data[i]? with
      | none =>
          rw [hx] at hfetch
          cases hfetch
      | some y =>
          rw [hx] at hfetch
          cases hfetch
          exact Array.mem_of_getElem? hx

theorem holds_cell [Zero α] {t : Tensor α} {d₀ d₁ d₂ d₃ : Nat}
    (hdims : t.dims = [d₀, d₁, d₂, d₃]) : Holds t.data d₀ d₁ d₂ d₃ t.cell := by
  have hsize := size_quad hdims
  have hself : Holds t.data d₀ d₁ d₂ d₃
      fun a b c d => t.data.getD (rowMajor d₁ d₂ d₃ a b c d) 0 := by
    constructor
    · exact hsize
    · intro a ha b hb c hc d hd
      have hplace := rowMajor_lt ha hb hc hd
      have hi : rowMajor d₁ d₂ d₃ a b c d < t.data.size := by omega
      simp [Array.getD, hi]
  apply hself.congr
  intro a ha b hb c hc d hd
  rw [cell, get_of_holds hdims hself ha hb hc hd]

/-!
## Borders
-/

/-- The view with a zero border of width `pad` around the last two axes. -/
def bordering [Zero α] (pad h w : Nat) (x : Nat → Nat → Nat → Nat → α) (a b y z : Nat) : α :=
  if pad ≤ y ∧ y < pad + h ∧ pad ≤ z ∧ z < pad + w then x a b (y - pad) (z - pad) else 0

section

variable [Zero α]

theorem bordering_of_mem {pad h w : Nat} {x : Nat → Nat → Nat → Nat → α} {a b y z : Nat}
    (hy : y < h) (hz : z < w) : bordering pad h w x a b (y + pad) (z + pad) = x a b y z := by
  rw [bordering, if_pos (by omega), Nat.add_sub_cancel, Nat.add_sub_cancel]

theorem bordering_zero {h w : Nat} {x : Nat → Nat → Nat → Nat → α} {a b y z : Nat}
    (hy : y < h) (hz : z < w) : bordering 0 h w x a b y z = x a b y z :=
  bordering_of_mem hy hz

theorem bordered_ok {extent pad : Nat} (h : extent + 2 * pad < Size.limit) :
    bordered extent pad = .ok (extent + 2 * pad) :=
  Size.checked_of_lt h

theorem le_mul_of_pos {a b c d : Nat} (ha : 0 < a) (hb : 0 < b) (hc : 0 < c) (hd : 0 < d) :
    a ≤ a * b * c * d ∧ b ≤ a * b * c * d ∧ c ≤ a * b * c * d ∧ d ≤ a * b * c * d := by
  have hab : a ≤ a * b := Nat.le_mul_of_pos_right a hb
  have hba : b ≤ a * b := Nat.le_mul_of_pos_left b ha
  have habc : a * b ≤ a * b * c := Nat.le_mul_of_pos_right _ hc
  have hcab : c ≤ a * b * c := Nat.le_mul_of_pos_left c (Nat.mul_pos ha hb)
  have habcd : a * b * c ≤ a * b * c * d := Nat.le_mul_of_pos_right _ hd
  have hdabc : d ≤ a * b * c * d :=
    Nat.le_mul_of_pos_left d (Nat.mul_pos (Nat.mul_pos ha hb) hc)
  omega

omit [Zero α] in
/-- The extents of a tensor are words. -/
theorem extents_lt {t : Tensor α} {a b c d : Nat} (hdims : t.dims = [a, b, c, d]) :
    a < Size.limit ∧ b < Size.limit ∧ c < Size.limit ∧ d < Size.limit := by
  have hlimit := t.shape.total_lt_limit
  rw [Shape.total_quad hdims] at hlimit
  rcases Shape.quad_pos hdims with ⟨ha, hb, hc, hd⟩
  rcases le_mul_of_pos ha hb hc hd with ⟨hale, hble, hcle, hdle⟩
  omega

/-- Outside of the copied cells a bordered view is zero. -/
theorem bordering_eq_zero {pad h w : Nat} {x : Nat → Nat → Nat → Nat → α} {a b y z : Nat}
    (hout : ∀ y' < h, ∀ z' < w, ¬ (y = y' + pad ∧ z = z' + pad)) :
    bordering pad h w x a b y z = 0 := by
  rw [bordering, if_neg]
  rintro ⟨hy, hy', hz, hz'⟩
  exact hout (y - pad) (by omega) (z - pad) (by omega) ⟨by omega, by omega⟩

/-- `(N, C, H, W)` to `(N, H, W, C)` with a border. -/
theorem toNhwcPadded_ok {t : Tensor α} {n c h w pad : Nat}
    {x : Nat → Nat → Nat → Nat → α} (hdims : t.dims = [n, c, h, w])
    (hx : Holds t.data n c h w x)
    (hprod : n * (h + 2 * pad) * (w + 2 * pad) * c < Size.bufferLimit) :
    ∃ r, t.toNhwcPadded pad = .ok r ∧ r.dims = [n, h + 2 * pad, w + 2 * pad, c] ∧
      Holds r.data n (h + 2 * pad) (w + 2 * pad) c
        fun a y z b => bordering pad h w x a b y z := by
  rcases Shape.quad_pos hdims with ⟨hn, hc, hh, hw⟩
  have hlimit := Size.bufferLimit_lt_limit
  have hle := le_mul_of_pos hn (by omega : 0 < h + 2 * pad) (by omega : 0 < w + 2 * pad) hc
  rw [toNhwcPadded, Shape.quad_eq hdims, error_ok_bind]
  dsimp only
  rw [bordered_ok (by omega), bordered_ok (by omega), fault_ok_bind, fault_ok_bind]
  apply build_puts (S := fun i => ∃ a, a < n ∧ ∃ b, b < c ∧ ∃ y, y < h ∧ ∃ z, z < w ∧
    i = rowMajor (h + 2 * pad) (w + 2 * pad) c a (y + pad) (z + pad) b)
  · simp
    omega
  · exact hprod
  · apply puts_forRange_zero
    intro a ha
    apply puts_forRange_zero
    intro b hb
    apply puts_forRange_zero
    intro y hy
    apply puts_forRange_zero
    intro z hz
    have hplace : (((a * (h + 2 * pad) + y + pad) * (w + 2 * pad) + pad) + z) * c + b =
        rowMajor (h + 2 * pad) (w + 2 * pad) c a (y + pad) (z + pad) b := by
      rw [rowMajor]
      ring
    have hfetch : fetch t.data (((a * c + b) * h + y) * w + z) = .ok (x a b y z) :=
      hx.fetch_eq ha hb hy hz rfl
    rw [lift_bind hfetch, hplace]
    apply puts_write
    · exact rowMajor_lt ha (by omega) (by omega) hb
    · rw [spread_rowMajor (by omega) (by omega) hb, bordering_of_mem hy hz]
  · intro i hi hout
    rcases exists_rowMajor hi with ⟨a, ha, y, hy, z, hz, b, hb, hEq⟩
    rw [hEq, spread_rowMajor hy hz hb]
    apply bordering_eq_zero
    rintro y' hy' z' hz' ⟨hyEq, hzEq⟩
    exact hout ⟨a, ha, b, hb, y', hy', z', hz', by rw [hEq, hyEq, hzEq]⟩

theorem toNchw_ok {t : Tensor α} {n h w c : Nat} {x : Nat → Nat → Nat → Nat → α}
    (hdims : t.dims = [n, h, w, c]) (hx : Holds t.data n h w c x)
    (hprod : n * h * w * c < Size.bufferLimit) :
    ∃ r, t.toNchw = .ok r ∧ r.dims = [n, c, h, w] ∧
      Holds r.data n c h w fun a b y z => x a y z b := by
  rcases Shape.quad_pos hdims with ⟨hn, hh, hw, hc⟩
  rw [toNchw, Shape.quad_eq hdims, error_ok_bind]
  dsimp only
  apply build_puts (S := fun i => ∃ a, a < n ∧ ∃ y, y < h ∧ ∃ z, z < w ∧ ∃ b, b < c ∧
    i = rowMajor c h w a b y z)
  · simp
    omega
  · have hcomm : n * c * h * w = n * h * w * c := by ring
    rw [hcomm]
    exact hprod
  · apply puts_forRange_zero
    intro a ha
    apply puts_forRange_zero
    intro y hy
    apply puts_forRange_zero
    intro z hz
    apply puts_forRange_zero
    intro b hb
    have hfetch : fetch t.data (((a * h + y) * w + z) * c + b) = .ok (x a y z b) :=
      hx.fetch_eq ha hy hz hb rfl
    have hplace : ((a * c + b) * h + y) * w + z = rowMajor c h w a b y z := rfl
    rw [lift_bind hfetch, hplace]
    apply puts_write
    · exact rowMajor_lt ha hb hy hz
    · rw [spread_rowMajor hb hy hz]
  · intro i hi hout
    rcases exists_rowMajor hi with ⟨a, ha, b, hb, y, hy, z, hz, hEq⟩
    exact absurd ⟨a, ha, y, hy, z, hz, b, hb, hEq⟩ hout

theorem padNchw_ok {t : Tensor α} {n c h w pad : Nat} {x : Nat → Nat → Nat → Nat → α}
    (hpad : pad ≠ 0) (hdims : t.dims = [n, c, h, w]) (hx : Holds t.data n c h w x)
    (hprod : n * c * (h + 2 * pad) * (w + 2 * pad) < Size.bufferLimit) :
    ∃ r, t.padNchw pad = .ok r ∧ r.dims = [n, c, h + 2 * pad, w + 2 * pad] ∧
      Holds r.data n c (h + 2 * pad) (w + 2 * pad) (bordering pad h w x) := by
  rcases Shape.quad_pos hdims with ⟨hn, hc, hh, hw⟩
  have hlimit := Size.bufferLimit_lt_limit
  have hle := le_mul_of_pos hn hc (by omega : 0 < h + 2 * pad) (by omega : 0 < w + 2 * pad)
  rw [padNchw, if_neg hpad, Shape.quad_eq hdims, error_ok_bind]
  dsimp only
  rw [bordered_ok (by omega), bordered_ok (by omega), fault_ok_bind, fault_ok_bind]
  apply build_puts (S := fun i => ∃ plane, plane < n * c ∧ ∃ y, y < h ∧
    ((plane * (h + 2 * pad) + y + pad) * (w + 2 * pad) + pad ≤ i ∧
      i < (plane * (h + 2 * pad) + y + pad) * (w + 2 * pad) + pad + w))
  · simp
    omega
  · exact hprod
  · apply puts_forRange_zero
    intro plane hplane
    apply puts_forRange_zero
    intro y hy
    have ha := div_lt_of_lt_mul hplane
    have hb := mod_lt_of_lt_mul hplane
    have hsource : (plane * h + y) * w = rowMajor c h w (plane / c) (plane % c) y 0 := by
      rw [rowMajor, Nat.div_add_mod', Nat.add_zero]
    have htarget : (plane * (h + 2 * pad) + y + pad) * (w + 2 * pad) + pad =
        rowMajor c (h + 2 * pad) (w + 2 * pad) (plane / c) (plane % c) (y + pad) pad := by
      rw [rowMajor, Nat.div_add_mod', Nat.add_assoc (plane * (h + 2 * pad))]
    have hlast : rowMajor c (h + 2 * pad) (w + 2 * pad) (plane / c) (plane % c) (y + pad)
        (pad + (w - 1)) < n * c * (h + 2 * pad) * (w + 2 * pad) :=
      rowMajor_lt ha hb (by omega) (by omega)
    rw [← rowMajor_add] at hlast
    rw [lift_bind (hx.slice_eq ha hb hy (by omega) hw hsource), htarget]
    apply Fills.puts_onSlice
    · omega
    · apply fills_copyFrom
      · exact size_tabulate _ _
      · intro z hz
        rw [size_tabulate] at hz
        rw [getElem_tabulate, rowMajor_add, spread_rowMajor hb (by omega) (by omega),
          Nat.add_comm pad z, bordering_of_mem hy hz, Nat.zero_add]
  · intro i hi hout
    rcases exists_rowMajor hi with ⟨a, ha, b, hb, y, hy, z, hz, hEq⟩
    rw [hEq, spread_rowMajor hb hy hz]
    apply bordering_eq_zero
    rintro y' hy' z' hz' ⟨hyEq, hzEq⟩
    have hrow : ((a * c + b) * (h + 2 * pad) + y' + pad) * (w + 2 * pad) + pad + z' = i := by
      rw [hEq, rowMajor, hyEq, hzEq]
      ring
    exact hout ⟨a * c + b, add_mul_lt ha hb, y', hy', by omega, by omega⟩

/-!
## Successful conversions
-/

theorem of_bordered {extent pad size : Nat} (h : bordered extent pad = .ok size) :
    size = extent + 2 * pad :=
  (Size.of_checked h).2

theorem prod_lt_of_toNhwcPadded {t r : Tensor α} {n c h w pad : Nat}
    (hdims : t.dims = [n, c, h, w]) (hr : t.toNhwcPadded pad = .ok r) :
    n * (h + 2 * pad) * (w + 2 * pad) * c < Size.bufferLimit := by
  rw [toNhwcPadded, Shape.quad_eq hdims, error_ok_bind] at hr
  rcases fault_step hr with ⟨rows, hrows, hr⟩
  rcases fault_step hr with ⟨cols, hcols, hr⟩
  have hprod := prod_lt_of_build hr
  rw [of_bordered hrows, of_bordered hcols] at hprod
  simpa [Nat.mul_assoc] using hprod

theorem of_toNhwcPadded {t r : Tensor α} {n c h w pad : Nat} {x : Nat → Nat → Nat → Nat → α}
    (hdims : t.dims = [n, c, h, w]) (hx : Holds t.data n c h w x)
    (hr : t.toNhwcPadded pad = .ok r) :
    r.dims = [n, h + 2 * pad, w + 2 * pad, c] ∧
      Holds r.data n (h + 2 * pad) (w + 2 * pad) c fun a y z b => bordering pad h w x a b y z := by
  rcases toNhwcPadded_ok hdims hx (prod_lt_of_toNhwcPadded hdims hr) with
    ⟨r', hr', hdims', hholds⟩
  rw [hr] at hr'
  cases hr'
  exact ⟨hdims', hholds⟩

theorem prod_lt_of_padNchw {t r : Tensor α} {n c h w pad : Nat} (hpad : pad ≠ 0)
    (hdims : t.dims = [n, c, h, w]) (hr : t.padNchw pad = .ok r) :
    n * c * (h + 2 * pad) * (w + 2 * pad) < Size.bufferLimit := by
  rw [padNchw, if_neg hpad, Shape.quad_eq hdims, error_ok_bind] at hr
  rcases fault_step hr with ⟨rows, hrows, hr⟩
  rcases fault_step hr with ⟨cols, hcols, hr⟩
  have hprod := prod_lt_of_build hr
  rw [of_bordered hrows, of_bordered hcols] at hprod
  simpa [Nat.mul_assoc] using hprod

theorem of_padNchw {t r : Tensor α} {n c h w pad : Nat} {x : Nat → Nat → Nat → Nat → α}
    (hdims : t.dims = [n, c, h, w]) (hx : Holds t.data n c h w x) (hr : t.padNchw pad = .ok r) :
    r.dims = [n, c, h + 2 * pad, w + 2 * pad] ∧
      Holds r.data n c (h + 2 * pad) (w + 2 * pad) (bordering pad h w x) := by
  by_cases hpad : pad = 0
  · subst hpad
    rw [padNchw, if_pos rfl] at hr
    cases hr
    refine ⟨hdims, hx.congr ?_⟩
    intro a _ b _ y hy z hz
    exact (bordering_zero hy hz).symm
  · rcases padNchw_ok hpad hdims hx (prod_lt_of_padNchw hpad hdims hr) with
      ⟨r', hr', hdims', hholds⟩
    rw [hr] at hr'
    cases hr'
    exact ⟨hdims', hholds⟩

end
end Tensor
end ConvSweep
