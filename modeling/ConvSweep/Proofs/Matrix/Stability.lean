import Mathlib
import ConvSweep.Proofs.Binary32
import ConvSweep.Proofs.Matrix.Product

/-!
# Products that do not change a bit

Sums of rounded products depend on their order, so a multiply that is cut into
tiles, run row by row over a gap or fed from a transposed store could well round
differently.  It does not: every element is computed from its old value and the
entries of the two operands by `DenseMultiply.element`, which knows neither the tile
nor the gap nor the places of the entries.  This holds for any scalars, whatever
their sum and product are, the NaN and the infinities of the machine included.

Only a transposed `B` changes the sequence of operations, as `alpha` is then applied
to the sum and not to each product.  In single precision, with `alpha` one and
`beta` zero, this makes no difference either.
-/

namespace ConvSweep

open BufferM Loop

variable {α : Type}

/-!
## Operands that show the same matrix
-/

/-- Both operands show the same `rows × cols` matrix, however each of them is stored. -/
def Operand.Shows (x y : Operand α) (rows cols : Nat) : Prop :=
  ∀ i < rows, ∀ j < cols, x.entry i j = y.entry i j

instance [DecidableEq α] (x y : Operand α) (rows cols : Nat) : Decidable (x.Shows y rows cols) :=
  inferInstanceAs (Decidable (∀ i < rows, ∀ j < cols, x.entry i j = y.entry i j))

theorem Operand.Shows.value_eq [Zero α] {x y : Operand α} {rows cols : Nat}
    (h : x.Shows y rows cols) (hx : x.extent rows cols ≤ x.data.size)
    (hy : y.extent rows cols ≤ y.data.size) {i j : Nat} (hi : i < rows) (hj : j < cols) :
    x.value i j = y.value i j := by
  have hentry := h i hi j hj
  rw [Operand.entry_ok hx hi hj, Operand.entry_ok hy hi hj] at hentry
  exact Except.ok.inj hentry

theorem BufferM.mapIdx_inRows_congr {n count stride width : Nat} {f g : Nat → Nat → α → α}
    (h : ∀ r < count, ∀ c < width, ∀ x, f r c x = g r c x) (v : Vector α n) :
    v.mapIdx (inRows count stride width f) = v.mapIdx (inRows count stride width g) := by
  apply Vector.ext
  intro q _
  rw [Vector.getElem_mapIdx, Vector.getElem_mapIdx, inRows, inRows]
  by_cases hin : q / stride < count ∧ q % stride < width
  · rw [if_pos hin, if_pos hin, h _ hin.1 _ hin.2]
  · rw [if_neg hin, if_neg hin]

namespace DenseMultiply

/-!
## Elements
-/

section

variable [Zero α] [One α] [Add α] [Mul α] [BEq α]

theorem element_left {mul : DenseMultiply α} {a : Operand α} {i : Nat}
    (h : ∀ p < mul.k, a.value i p = mul.a.value i p) (j : Nat) (old : α) :
    ({ mul with a := a } : DenseMultiply α).element i j old = mul.element i j old := by
  have hsum : rowProduct mul.k (a.value i) (fun p => mul.b.value p j) =
      rowProduct mul.k (mul.a.value i) fun p => mul.b.value p j :=
    rowProduct_congr h fun _ _ => rfl
  have hfold : (List.range mul.k).foldl
        (fun acc p => acc + mul.alpha * a.value i p * mul.b.value p j) (scaled mul.beta old) =
      (List.range mul.k).foldl
        (fun acc p => acc + mul.alpha * mul.a.value i p * mul.b.value p j)
        (scaled mul.beta old) := by
    apply foldl_range_congr
    intro p hp acc
    rw [h p hp]
  simp only [element, hsum, hfold]

/-- The `k` products of an element, in ascending order and from zero.  A transposed `B` has its
products added up before they are multiplied by `alpha`. -/
def ascending (mul : DenseMultiply α) (i j : Nat) : α :=
  if mul.b.transposed ∧ mul.k ≠ 0 then
    mul.alpha *
      (List.range mul.k).foldl (fun acc p => acc + mul.a.value i p * mul.b.value p j) 0
  else
    (List.range mul.k).foldl (fun acc p => acc + mul.alpha * mul.a.value i p * mul.b.value p j) 0

theorem element_eq_ascending {mul : DenseMultiply α} (h : (mul.beta == 0) = true) (i j : Nat)
    (old : α) : mul.element i j old = mul.ascending i j := by
  have hscaled : scaled mul.beta old = 0 := by
    rw [scaled, if_pos h]
  rw [element, ascending, hscaled]
  by_cases hk : mul.k = 0
  · rw [if_pos hk, if_neg fun hboth => hboth.2 hk, hk]
    rfl
  · rw [if_neg hk]
    by_cases hb : mul.b.transposed = true
    · rw [if_pos hb, if_pos h, if_pos ⟨hb, hk⟩]
      rfl
    · rw [if_neg hb, if_neg fun hboth => hb hboth.1]

end

/-- In single precision it does not matter whether a factor one is applied to the products or to
their sum. -/
theorem ascending_of_alpha_one {mul : DenseMultiply Binary32} (h : mul.alpha = 1) (i j : Nat) :
    mul.ascending i j = rowProduct mul.k (mul.a.value i) fun p => mul.b.value p j := by
  rw [ascending, h]
  by_cases hcase : mul.b.transposed ∧ mul.k ≠ 0
  · rw [if_pos hcase]
    exact (Binary32.isSum_rowProduct mul.k (mul.a.value i) fun p => mul.b.value p j).one_mul
  · rw [if_neg hcase]
    apply foldl_range_congr
    intro p _ acc
    rw [Binary32.one_mul_mul]

/-!
## Runs
-/

section

variable [Zero α] [One α] [Add α] [Mul α] [BEq α] {len : Nat}

/-- The multiply turns `v` into `w`, whatever the tile and the order of the rows are, and none of
its size operations fails. -/
def Leaves (mul : DenseMultiply α) (v w : Vector α len) : Prop :=
  ∀ schedule tile, run schedule tile mul v = .ok () w ∧
    (tile < Size.limit → Word.runDense schedule tile mul v = .ok () w)

/-- The multiply does not write when the rows of `C` overlap: it refuses to run, unless `C` has no
rows. -/
def Refuses (mul : DenseMultiply α) (v : Vector α len) : Prop :=
  ∀ schedule tile,
    if mul.m = 0 then
      run schedule tile mul v = .ok () v ∧ Word.runDense schedule tile mul v = .ok () v
    else
      run schedule tile mul v = .error (.shortStride .c mul.ldc mul.n) v ∧
        Word.runDense schedule tile mul v = .error (.shortStride .c mul.ldc mul.n) v

theorem Fits.leaves {mul : DenseMultiply α} (h : mul.Fits len) (v : Vector α len) :
    mul.Leaves v (v.mapIdx (inRows mul.m mul.ldc mul.n mul.element)) :=
  fun schedule _ => ⟨h.run_ok schedule v, fun htile => h.checked_run_ok schedule htile v⟩

theorem refuses_of_lt {mul : DenseMultiply α} (h : mul.ldc < mul.n) (v : Vector α len) :
    mul.Refuses v := by
  intro schedule tile
  by_cases hm : mul.m = 0
  · rw [if_pos hm]
    refine ⟨run_empty schedule tile (Or.inl hm) v, ?_⟩
    rw [Word.runDense, if_pos (Or.inl hm)]
    rfl
  · have hn : mul.n ≠ 0 := Nat.ne_zero_of_lt h
    have hpos : ¬ (mul.m = 0 ∨ mul.n = 0) := fun hempty => hempty.elim hm hn
    have hgap : (Fault.shortStride .c mul.ldc mul.n).check (mul.n ≤ mul.ldc) =
        .error (.shortStride .c mul.ldc mul.n) := if_neg (Nat.not_le.mpr h)
    rw [if_neg hm, run, Word.runDense, if_neg hpos, if_neg hpos, check, Word.checkDense, hgap]
    exact ⟨rfl, rfl⟩

/-- The `m × n` elements of `C` are the same in both buffers, whose rows are `ldc` and `ldc'`
apart. -/
def SameCells {len len' : Nat} (m n ldc ldc' : Nat) (v : Vector α len) (v' : Vector α len') :
    Prop :=
  ∀ i < m, ∀ j < n, v[i * ldc + j]? = v'[i * ldc' + j]?

instance {len len' : Nat} [DecidableEq α] (m n ldc ldc' : Nat) (v : Vector α len)
    (v' : Vector α len') : Decidable (SameCells m n ldc ldc' v v') :=
  inferInstanceAs (Decidable (∀ i < m, ∀ j < n, v[i * ldc + j]? = v'[i * ldc' + j]?))

theorem Fits.cell_eq {mul : DenseMultiply α} (h : mul.Fits len) {v : Vector α len} {i j : Nat}
    (hi : i < mul.m) (hj : j < mul.n) :
    (v.mapIdx (inRows mul.m mul.ldc mul.n mul.element))[i * mul.ldc + j]? =
      v[i * mul.ldc + j]?.map (mul.element i j) := by
  have hlt := h.place_lt hi hj
  rw [Vector.getElem?_eq_getElem hlt, Vector.getElem?_eq_getElem hlt, Vector.getElem_mapIdx,
    inRows_of_lt h.gap hi hj]
  rfl

/-- The result `w` of a multiply on `v` has the same bits however it is computed. -/
structure Stable (mul : DenseMultiply α) (v w : Vector α len) : Prop where
  leaves : mul.Leaves v w
  gap : ∀ (ldc : Nat) {len' : Nat} (v' : Vector α len'),
    ({ mul with ldc := ldc } : DenseMultiply α).Fits len' →
      SameCells mul.m mul.n mul.ldc ldc v v' →
        ∃ w' : Vector α len', ({ mul with ldc := ldc } : DenseMultiply α).Leaves v' w' ∧
          SameCells mul.m mul.n mul.ldc ldc w w'
  left : ∀ a : Operand α, ({ mul with a := a } : DenseMultiply α).Fits len →
    a.Shows mul.a mul.m mul.k → ({ mul with a := a } : DenseMultiply α).Leaves v w
  fromZero : (mul.beta == 0) = true →
    ∀ i < mul.m, ∀ j < mul.n, w[i * mul.ldc + j]? = some (mul.ascending i j)

theorem Fits.stable {mul : DenseMultiply α} (h : mul.Fits len) (v : Vector α len) :
    mul.Stable v (v.mapIdx (inRows mul.m mul.ldc mul.n mul.element)) where
  leaves := h.leaves v
  gap ldc _ v' h' hsame := by
    refine ⟨_, h'.leaves v', ?_⟩
    intro i hi j hj
    rw [h.cell_eq hi hj, hsame i hi j hj]
    exact (h'.cell_eq hi hj).symm
  left a h' hshows := by
    have hsame : v.mapIdx (inRows mul.m mul.ldc mul.n mul.element) =
        v.mapIdx (inRows mul.m mul.ldc mul.n ({ mul with a := a } : DenseMultiply α).element) := by
      apply mapIdx_inRows_congr
      intro i hi j hj old
      have hreaches := h.reaches (Nat.zero_lt_of_lt hi) (Nat.zero_lt_of_lt hj)
      have hreaches' := h'.reaches (Nat.zero_lt_of_lt hi) (Nat.zero_lt_of_lt hj)
      symm
      apply element_left
      intro p hp
      have hk := Nat.zero_lt_of_lt hp
      exact hshows.value_eq (hreaches'.left hk) (hreaches.left hk) hi hp
    rw [hsame]
    exact h'.leaves v
  fromZero hbeta i hi j hj := by
    rw [h.cell_eq hi hj, Vector.getElem?_eq_getElem (h.place_lt hi hj), Option.map_some,
      element_eq_ascending hbeta]

end

theorem element_of_plain (mul : DenseMultiply Binary32) (halpha : mul.alpha = 1)
    (hbeta : (mul.beta == 0) = true) (i j : Nat) (old : Binary32) :
    mul.element i j old = rowProduct mul.k (mul.a.value i) fun p => mul.b.value p j := by
  rw [element_eq_ascending hbeta, ascending_of_alpha_one halpha]

/-- In single precision a plain product of `A` and `B` has the same bits for every store of `B`. -/
theorem Fits.leaves_right {mul : DenseMultiply Binary32} {len : Nat} (h : mul.Fits len)
    (halpha : mul.alpha = 1) (hbeta : (mul.beta == 0) = true) (v : Vector Binary32 len)
    {b : Operand Binary32} (h' : ({ mul with b := b } : DenseMultiply Binary32).Fits len)
    (hshows : b.Shows mul.b mul.k mul.n) :
    ({ mul with b := b } : DenseMultiply Binary32).Leaves v
      (v.mapIdx (inRows mul.m mul.ldc mul.n mul.element)) := by
  have hsame : v.mapIdx (inRows mul.m mul.ldc mul.n mul.element) =
      v.mapIdx
        (inRows mul.m mul.ldc mul.n ({ mul with b := b } : DenseMultiply Binary32).element) := by
    apply mapIdx_inRows_congr
    intro i hi j hj old
    have hreaches := h.reaches (Nat.zero_lt_of_lt hi) (Nat.zero_lt_of_lt hj)
    have hreaches' := h'.reaches (Nat.zero_lt_of_lt hi) (Nat.zero_lt_of_lt hj)
    have hproducts : (rowProduct mul.k (mul.a.value i) fun p => mul.b.value p j) =
        rowProduct mul.k (mul.a.value i) fun p => b.value p j := by
      apply rowProduct_congr
      · intro p _
        rfl
      · intro p hp
        have hk := Nat.zero_lt_of_lt hp
        exact (hshows.value_eq (hreaches'.right hk) (hreaches.right hk) hp hj).symm
    have hstored : ({ mul with b := b } : DenseMultiply Binary32).element i j old =
        rowProduct mul.k (mul.a.value i) fun p => b.value p j :=
      element_of_plain { mul with b := b } halpha hbeta i j old
    rw [element_of_plain mul halpha hbeta, hproducts, hstored]
  rw [hsame]
  exact h'.leaves v

/-- No tile, no gap between the rows of `C` and no transposed store of `A` changes a bit of the
result, and in single precision no transposed store of `B` changes one of a plain product.  Every
element adds its products in ascending order, from zero where `beta` is zero. -/
theorem bits_stable :
    (∀ {F : Type} [Zero F] [One F] [Add F] [Mul F] [BEq F] (mul : DenseMultiply F) {len : Nat}
      (v : Vector F len),
        (mul.Fits len → ∃ w, mul.Stable v w) ∧ (mul.ldc < mul.n → mul.Refuses v)) ∧
    ∀ (mul : DenseMultiply Binary32) {len : Nat} (v : Vector Binary32 len), mul.Fits len →
      mul.alpha = 1 → (mul.beta == 0) = true →
        ∃ w, mul.Leaves v w ∧
          (∀ b : Operand Binary32, ({ mul with b := b } : DenseMultiply Binary32).Fits len →
            b.Shows mul.b mul.k mul.n →
              ({ mul with b := b } : DenseMultiply Binary32).Leaves v w) ∧
          ∀ i < mul.m, ∀ j < mul.n, w[i * mul.ldc + j]? =
            some (rowProduct mul.k (mul.a.value i) fun p => mul.b.value p j) := by
  constructor
  · intro F _ _ _ _ _ mul len v
    exact ⟨fun h => ⟨_, h.stable v⟩, fun h => refuses_of_lt h v⟩
  · intro mul len v h halpha hbeta
    have hstable := h.stable v
    refine ⟨_, hstable.leaves, ?_, ?_⟩
    · intro b h' hshows
      exact h.leaves_right halpha hbeta v h' hshows
    · intro i hi j hj
      rw [hstable.fromZero hbeta i hi j hj, ascending_of_alpha_one halpha]

instance (mul : DenseMultiply α) (len : Nat) : Decidable (mul.Reaches len) :=
  decidable_of_iff
    ((mul.m - 1) * mul.ldc + mul.n ≤ len ∧
      (0 < mul.k → mul.a.extent mul.m mul.k ≤ mul.a.data.size) ∧
      (0 < mul.k → mul.b.extent mul.k mul.n ≤ mul.b.data.size))
    ⟨fun ⟨target, left, right⟩ => ⟨target, left, right⟩, fun h => ⟨h.target, h.left, h.right⟩⟩

instance (mul : DenseMultiply α) (len : Nat) : Decidable (mul.Fits len) :=
  decidable_of_iff
    ((mul.m < Size.bufferLimit ∧ mul.n < Size.bufferLimit ∧ mul.k < Size.bufferLimit) ∧
      (mul.a.stride < Size.limit ∧ mul.b.stride < Size.limit ∧ mul.ldc < Size.limit) ∧
      (mul.n ≤ mul.ldc ∧ len < Size.bufferLimit) ∧
      (mul.a.data.size < Size.bufferLimit ∧ mul.b.data.size < Size.bufferLimit) ∧
      (0 < mul.m → 0 < mul.n → mul.Reaches len))
    ⟨fun ⟨⟨hm, hn, hk⟩, ⟨ha, hb, hc⟩, ⟨hgap, hlen⟩, ⟨hleft, hright⟩, hreaches⟩ =>
        ⟨hm, hn, hk, ha, hb, hc, hgap, hlen, hleft, hright, hreaches⟩,
      fun h => ⟨⟨h.m_lt, h.n_lt, h.k_lt⟩, ⟨h.left_stride_lt, h.right_stride_lt, h.ldc_lt⟩,
        ⟨h.gap, h.len_lt⟩, ⟨h.left_size_lt, h.right_size_lt⟩, h.reaches⟩⟩

/-- The row `∞ 1` times the matrix of the rows `0 1` and `2 3`, with a negative zero for `beta`. -/
def exceptional : DenseMultiply Binary32 where
  m := 1
  n := 2
  k := 2
  alpha := 1
  a := ⟨#[⟨0x7f800000⟩, 1], 2, false⟩
  b := ⟨#[0, 1, ⟨0x40000000⟩, ⟨0x40400000⟩], 2, false⟩
  beta := ⟨0x80000000⟩
  ldc := 2

/-- A product without gaps and with `A` stored by columns, next to one with gaps, and a NaN and an
infinity that do not depend on the store of `B`. -/
theorem bits_stable_exceptional :
    (∃ w w', gapped.Leaves #v[1, 1, 9, 1, 1] w ∧
      ({ gapped with a := ⟨#[1, 3, 2, 4], 2, true⟩ } : DenseMultiply Int).Leaves
        #v[1, 1, 9, 1, 1] w ∧
      ({ gapped with ldc := 2 } : DenseMultiply Int).Leaves #v[1, 1, 1, 1] w' ∧
      SameCells 2 2 3 2 w w') ∧
    ({ gapped with ldc := 1 } : DenseMultiply Int).Refuses #v[1, 1, 1] ∧
    ∃ w, exceptional.Leaves #v[⟨0x7fc00001⟩, 1] w ∧
      ({ exceptional with b := ⟨#[0, ⟨0x40000000⟩, 1, ⟨0x40400000⟩], 2, true⟩ } :
        DenseMultiply Binary32).Leaves #v[⟨0x7fc00001⟩, 1] w ∧
      w[0] = ⟨0x7fc00000⟩ ∧ w[1] = ⟨0x7f800000⟩ := by
  rcases (bits_stable.1 gapped #v[1, 1, 9, 1, 1]).1 gapped_fits with ⟨w, hstable⟩
  have hcolumns := hstable.left ⟨#[1, 3, 2, 4], 2, true⟩ (by decide) (by decide)
  rcases hstable.gap 2 #v[1, 1, 1, 1] (by decide) (by decide) with ⟨w', hdense, hcells⟩
  have hrefuses := (bits_stable.1 { gapped with ldc := 1 } #v[1, 1, 1]).2 (by decide)
  rcases bits_stable.2 exceptional #v[⟨0x7fc00001⟩, 1] (by decide) rfl (by decide)
    with ⟨z, hplain, hstored, hproducts⟩
  refine ⟨⟨w, w', hstable.leaves, hcolumns, hdense, hcells⟩, hrefuses, z, hplain, ?_, ?_, ?_⟩
  · exact hstored _ (by decide) (by decide)
  · have hfirst := hproducts 0 (by decide) 0 (by decide)
    have hvalue : (rowProduct exceptional.k (exceptional.a.value 0)
        fun p => exceptional.b.value p 0) = ⟨0x7fc00000⟩ := by
      decide +kernel
    rw [hvalue] at hfirst
    exact Option.some.inj hfirst
  · have hsecond := hproducts 0 (by decide) 1 (by decide)
    have hvalue : (rowProduct exceptional.k (exceptional.a.value 0)
        fun p => exceptional.b.value p 1) = ⟨0x7f800000⟩ := by
      decide +kernel
    rw [hvalue] at hsecond
    exact Option.some.inj hsecond

end DenseMultiply
end ConvSweep
