import Mathlib
import ConvSweep.Proofs.Word.Multiply

/-!
# Products with strides

The dense multiply is used with both transposes, with rows at any stride and with
tiles of any size.  On buffers that hold the three matrices it never stops, and it
leaves `alpha * op(A) * op(B) + beta * C` in the rows of `C`.  The cells between
these rows and after them belong to somebody else and are kept.
-/

namespace ConvSweep

open BufferM Loop

variable {α : Type}

namespace DenseMultiply

/-!
## Callers
-/

/-- What a caller provides: extents below the length of any buffer, strides that are words, rows
of `C` that do not overlap, and, unless `C` is empty, buffers that hold the matrices. -/
structure Fits (mul : DenseMultiply α) (len : Nat) : Prop where
  m_lt : mul.m < Size.bufferLimit
  n_lt : mul.n < Size.bufferLimit
  k_lt : mul.k < Size.bufferLimit
  left_stride_lt : mul.a.stride < Size.limit
  right_stride_lt : mul.b.stride < Size.limit
  ldc_lt : mul.ldc < Size.limit
  gap : mul.n ≤ mul.ldc
  len_lt : len < Size.bufferLimit
  left_size_lt : mul.a.data.size < Size.bufferLimit
  right_size_lt : mul.b.data.size < Size.bufferLimit
  reaches : 0 < mul.m → 0 < mul.n → mul.Reaches len

/-- A stride as long as a word leaves room for one row, and a shorter one for the gap after the
last row. -/
theorem span_lt {mul : DenseMultiply α} {len : Nat} (hm : 0 < mul.m)
    (htarget : (mul.m - 1) * mul.ldc + mul.n ≤ len) (hlen : len < Size.bufferLimit)
    (hldc : mul.ldc < Size.limit) : mul.m * mul.ldc < Size.limit := by
  have hlimit : 2 * Size.bufferLimit < Size.limit := by decide
  have hlast : mul.m * mul.ldc = (mul.m - 1) * mul.ldc + mul.ldc := by
    rw [← Nat.succ_mul, Nat.succ_eq_add_one, Nat.sub_add_cancel hm]
  rcases Nat.eq_or_lt_of_le hm with hone | hmore
  · rw [← hone, Nat.one_mul]
    exact hldc
  · have hle : mul.ldc ≤ (mul.m - 1) * mul.ldc :=
      Nat.le_mul_of_pos_left _ (Nat.sub_pos_of_lt hmore)
    omega

theorem Fits.bounded {mul : DenseMultiply α} {len : Nat} (h : mul.Fits len) (hm : 0 < mul.m)
    (hn : 0 < mul.n) : mul.Bounded where
  m_lt := Nat.lt_trans h.m_lt Size.bufferLimit_lt_limit
  n_lt := Nat.lt_trans h.n_lt Size.bufferLimit_lt_limit
  k_lt := Nat.lt_trans h.k_lt Size.bufferLimit_lt_limit
  gap := h.gap
  ldc_lt := h.ldc_lt
  span_lt := span_lt hm (h.reaches hm hn).target h.len_lt h.ldc_lt
  left_stride_lt := h.left_stride_lt
  right_stride_lt := h.right_stride_lt
  left_lt hk := Nat.lt_of_le_of_lt ((h.reaches hm hn).left hk)
    (Nat.lt_trans h.left_size_lt Size.bufferLimit_lt_limit)
  right_lt hk := Nat.lt_of_le_of_lt ((h.reaches hm hn).right hk)
    (Nat.lt_trans h.right_size_lt Size.bufferLimit_lt_limit)
  tiles_lt _ := ⟨h.k_lt, h.n_lt⟩

/-- The place of an element of `C`. -/
theorem Fits.place_lt {mul : DenseMultiply α} {len : Nat} (h : mul.Fits len) {i j : Nat}
    (hi : i < mul.m) (hj : j < mul.n) : i * mul.ldc + j < len :=
  row_place_lt (h.reaches (Nat.zero_lt_of_lt hi) (Nat.zero_lt_of_lt hj)).target hi hj

/-!
## Runs
-/

section

variable [Zero α] [One α] [Add α] [Mul α] [BEq α] {mul : DenseMultiply α} {len : Nat}
  (h : mul.Fits len) (schedule : Schedule) {tile : Nat}
include h

theorem Fits.run_ok (v : Vector α len) :
    run schedule tile mul v = .ok () (v.mapIdx (inRows mul.m mul.ldc mul.n mul.element)) := by
  by_cases hempty : mul.m = 0 ∨ mul.n = 0
  · rw [run_empty schedule tile hempty, mapIdx_inRows_empty hempty]
  · have hm : 0 < mul.m := Nat.pos_of_ne_zero fun hm => hempty (Or.inl hm)
    have hn : 0 < mul.n := Nat.pos_of_ne_zero fun hn => hempty (Or.inr hn)
    exact acts_run schedule tile hm hn (h.bounded hm hn) (h.reaches hm hn) v

/-- No size, index or slice of the multiply stops it. -/
theorem Fits.checked_run_ok (htile : tile < Size.limit) (v : Vector α len) :
    Word.runDense schedule tile mul v =
      .ok () (v.mapIdx (inRows mul.m mul.ldc mul.n mul.element)) := by
  have hsame : (Word.runDense schedule tile mul : BufferM α len Unit) = run schedule tile mul := by
    by_cases hempty : mul.m = 0 ∨ mul.n = 0
    · rw [Word.runDense, run, if_pos hempty, if_pos hempty]
    · have hm : 0 < mul.m := Nat.pos_of_ne_zero fun hm => hempty (Or.inl hm)
      have hn : 0 < mul.n := Nat.pos_of_ne_zero fun hn => hempty (Or.inr hn)
      exact Word.runDense_eq (h.bounded hm hn) schedule fun _ => htile
  rw [hsame]
  exact h.run_ok schedule v

end

/-!
## Elements over a ring
-/

section

variable {R : Type} [CommRing R] [BEq R] [LawfulBEq R]

theorem scaled_eq_mul (beta x : R) : scaled beta x = beta * x := by
  rw [scaled]
  by_cases hzero : (beta == 0) = true
  · rw [if_pos hzero, eq_of_beq hzero, zero_mul]
  · rw [if_neg hzero]
    by_cases hone : (beta == 1) = true
    · rw [if_pos hone, eq_of_beq hone, one_mul]
    · rw [if_neg hone, mul_comm]

/-- Added row by row or summed up first, the products are those of the matrix product. -/
theorem element_eq_sum (mul : DenseMultiply R) (i j : Nat) (old : R) :
    mul.element i j old =
      mul.alpha * ∑ p ∈ Finset.range mul.k, mul.a.value i p * mul.b.value p j +
        mul.beta * old := by
  rw [element, scaled_eq_mul]
  by_cases hk : mul.k = 0
  · rw [if_pos hk, hk, Finset.sum_range_zero, mul_zero, zero_add]
  · rw [if_neg hk]
    cases hcase : mul.b.transposed with
    | false =>
        rw [if_neg Bool.false_ne_true, foldl_add_eq_sum, Finset.mul_sum, add_comm]
        simp only [mul_assoc]
    | true =>
        rw [if_pos rfl, rowProduct, foldl_add_eq_sum, zero_add]
        by_cases hzero : (mul.beta == 0) = true
        · rw [if_pos hzero, eq_of_beq hzero, zero_mul, add_zero]
        · rw [if_neg hzero]

end

/-!
## The product
-/

/-- The multiply never stops.  It keeps every cell outside of the rows of `C`, only scales `C`
when there are no products, and forgets the old `C` when `beta` is zero; over a commutative ring
it leaves `alpha * op(A) * op(B) + beta * C`. -/
theorem run_eq_product (schedule : Schedule) (tile : Nat) (htile : tile < Size.limit) :
    (∀ {F : Type} [Zero F] [One F] [Add F] [Mul F] [BEq F] (mul : DenseMultiply F) {len : Nat}
      (v : Vector F len), mul.Fits len →
        ∃ w, run schedule tile mul v = .ok () w ∧ Word.runDense schedule tile mul v = .ok () w ∧
          (∀ q (hq : q < len), (∀ i < mul.m, ∀ j < mul.n, q ≠ i * mul.ldc + j) → w[q] = v[q]) ∧
          (mul.m = 0 ∨ mul.n = 0 → w = v) ∧
          (mul.k = 0 → ∀ i < mul.m, ∀ j < mul.n, ∃ hq : i * mul.ldc + j < len,
            w[i * mul.ldc + j] = scaled mul.beta v[i * mul.ldc + j]) ∧
          ((mul.beta == 0) = true → ∀ v' : Vector F len, ∃ w',
            run schedule tile mul v' = .ok () w' ∧
              ∀ i < mul.m, ∀ j < mul.n, ∃ hq : i * mul.ldc + j < len,
                w'[i * mul.ldc + j] = w[i * mul.ldc + j])) ∧
    (∀ {R : Type} [CommRing R] [BEq R] [LawfulBEq R] (mul : DenseMultiply R) {len : Nat}
      (v : Vector R len), mul.Fits len →
        ∃ w, run schedule tile mul v = .ok () w ∧ Word.runDense schedule tile mul v = .ok () w ∧
          ∀ i < mul.m, ∀ j < mul.n, ∃ hq : i * mul.ldc + j < len,
            w[i * mul.ldc + j] =
              mul.alpha * ∑ p ∈ Finset.range mul.k, mul.a.value i p * mul.b.value p j +
                mul.beta * v[i * mul.ldc + j]) := by
  constructor
  · intro F _ _ _ _ _ mul len v h
    refine ⟨_, h.run_ok schedule v, h.checked_run_ok schedule htile v, ?_, ?_, ?_, ?_⟩
    · intro q hq hne
      rw [Vector.getElem_mapIdx, inRows_of_ne hne]
    · intro hempty
      exact mapIdx_inRows_empty hempty v
    · intro hk i hi j hj
      refine ⟨h.place_lt hi hj, ?_⟩
      rw [Vector.getElem_mapIdx, inRows_of_lt h.gap hi hj, element, if_pos hk]
    · intro hbeta v'
      refine ⟨_, h.run_ok schedule v', ?_⟩
      intro i hi j hj
      refine ⟨h.place_lt hi hj, ?_⟩
      rw [Vector.getElem_mapIdx, Vector.getElem_mapIdx, inRows_of_lt h.gap hi hj,
        inRows_of_lt h.gap hi hj]
      exact element_of_beta_zero hbeta i j _ _
  · intro R _ _ _ mul len v h
    refine ⟨_, h.run_ok schedule v, h.checked_run_ok schedule htile v, ?_⟩
    intro i hi j hj
    refine ⟨h.place_lt hi hj, ?_⟩
    rw [Vector.getElem_mapIdx, inRows_of_lt h.gap hi hj, element_eq_sum]

/-- `2 * A * Bᵀ + 10 * C` with rows `1 2`, `3 4` of `A` and rows `5 6`, `7 8` of the stored `B`, a
gap in all three buffers. -/
def gapped : DenseMultiply Int where
  m := 2
  n := 2
  k := 2
  alpha := 2
  a := ⟨#[1, 2, 0, 3, 4], 3, false⟩
  b := ⟨#[5, 6, 0, 0, 7, 8], 4, true⟩
  beta := 10
  ldc := 3

theorem gapped_fits : gapped.Fits 5 where
  m_lt := by decide
  n_lt := by decide
  k_lt := by decide
  left_stride_lt := by decide
  right_stride_lt := by decide
  ldc_lt := by decide
  gap := by decide
  len_lt := by decide
  left_size_lt := by decide
  right_size_lt := by decide
  reaches _ _ :=
    { target := by decide
      left := by decide
      right := by decide }

/-- The last element is `2 * (3 * 7 + 4 * 8) + 10`, with the longest tile. -/
theorem gapped_last_element :
    ∃ w, run .serial (Size.limit - 1) gapped #v[1, 1, 9, 1, 1] = .ok () w ∧ w[4] = 116 := by
  rcases (run_eq_product .serial (Size.limit - 1) (by decide)).2 gapped #v[1, 1, 9, 1, 1]
    gapped_fits with ⟨w, hrun, _, hcells⟩
  rcases hcells 1 (by decide) 1 (by decide) with ⟨_, hcell⟩
  exact ⟨w, hrun, hcell⟩

end DenseMultiply
end ConvSweep
