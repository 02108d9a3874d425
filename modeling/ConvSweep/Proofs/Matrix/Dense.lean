import Mathlib
import ConvSweep.Matrix.Dense
import ConvSweep.Proofs.Outcome
import ConvSweep.Proofs.Tensor.Cells

/-!
# Elements of a dense multiply

Whatever the strides, the transposes, the tile and the schedule are, the multiply
computes each element of `C` from its old value, a row of `op(A)` and a column of
`op(B)`, and the cells between the rows and after them keep what they hold.  The
convolutions use the special case of two matrices that are stored row by row, the
second of them transposed, with a cleared `C` that has no gaps.
-/

namespace ConvSweep

open BufferM Loop

variable {α : Type}

/-!
## Sums of products
-/

/-- `0 + u 0 * v 0 + u 1 * v 1 + …`, with `length` products. -/
def rowProduct [Zero α] [Add α] [Mul α] (length : Nat) (u v : Nat → α) : α :=
  (List.range length).foldl (fun acc i => acc + u i * v i) 0

theorem rowProduct_congr [Zero α] [Add α] [Mul α] {length : Nat} {u u' v v' : Nat → α}
    (hu : ∀ i < length, u i = u' i) (hv : ∀ i < length, v i = v' i) :
    rowProduct length u v = rowProduct length u' v' := by
  apply foldl_range_congr
  intro i hi acc
  rw [hu i hi, hv i hi]

/-- A sum of products along a list of places. -/
theorem dotFrom_map [Add α] [Mul α] {β : Type} (acc : α) (places : List β) (f g : β → α) :
    dotFrom acc (places.map f) (places.map g) =
      places.foldl (fun acc i => acc + f i * g i) acc := by
  induction places generalizing acc with
  | nil =>
      rfl
  | cons i rest ih =>
      exact ih (acc + f i * g i)

/-- The zero of a scalar type passes the test for zero. -/
class ZeroTest (α : Type) [Zero α] [BEq α] : Prop where
  zero_beq_zero : ((0 : α) == 0) = true

instance [Zero α] [BEq α] [ReflBEq α] : ZeroTest α where
  zero_beq_zero := BEq.rfl

/-!
## Operands
-/

namespace Operand

/-- Where the entry in row `i` and column `j` is stored. -/
def place (x : Operand α) (i j : Nat) : Nat :=
  if x.transposed then j * x.stride + i else i * x.stride + j

/-- The entry in row `i` and column `j`; zero outside of the buffer. -/
def value [Zero α] (x : Operand α) (i j : Nat) : α :=
  x.data.getD (x.place i j) 0

/-- The number of stored columns of an operand that is used as a `rows × cols` matrix. -/
def storedCols (x : Operand α) (rows cols : Nat) : Nat :=
  if x.transposed then rows else cols

/-- The stored rows take so many places, the last of them without a gap after it. -/
def extent (x : Operand α) (rows cols : Nat) : Nat :=
  (x.storedRows rows cols - 1) * x.stride + x.storedCols rows cols

theorem place_lt {x : Operand α} {rows cols bound i j : Nat} (h : x.extent rows cols ≤ bound)
    (hi : i < rows) (hj : j < cols) : x.place i j < bound := by
  rw [extent, storedRows, storedCols] at h
  rw [place]
  cases hcase : x.transposed with
  | false =>
      simp only [hcase, Bool.false_eq_true, if_false] at h ⊢
      exact row_place_lt h hi hj
  | true =>
      simp only [hcase, if_true] at h ⊢
      exact row_place_lt h hj hi

section

variable {x : Operand α} {rows cols : Nat} (h : x.extent rows cols ≤ x.data.size)
include h

theorem entry_ok [Zero α] {i j : Nat} (hi : i < rows) (hj : j < cols) :
    x.entry i j = .ok (x.value i j) :=
  fetch_ok (place_lt h hi hj) 0

theorem checkLength_ok {name : MatrixName} (hcols : 0 < x.storedCols rows cols)
    (hlimit : x.extent rows cols < Size.limit) : x.checkLength name rows cols = .ok () := by
  have hlast : (x.storedRows rows cols - 1) * x.stride + 1 ≤ x.extent rows cols :=
    Nat.add_le_add_left hcols _
  rw [checkLength, Size.checked_bind (Nat.lt_of_le_of_lt hlast hlimit)]
  exact check_of _ (Nat.le_trans hlast h)

end

theorem storedRows_pos (x : Operand α) {rows cols : Nat} (hrows : 0 < rows) (hcols : 0 < cols) :
    0 < x.storedRows rows cols := by
  rw [storedRows]
  split
  · exact hcols
  · exact hrows

theorem storedCols_pos (x : Operand α) {rows cols : Nat} (hrows : 0 < rows) (hcols : 0 < cols) :
    0 < x.storedCols rows cols := by
  rw [storedCols]
  split
  · exact hrows
  · exact hcols

end Operand

namespace DenseMultiply

/-!
## What a multiply asks for
-/

/-- The numbers that the multiply computes with fit the word. -/
structure Bounded (mul : DenseMultiply α) : Prop where
  m_lt : mul.m < Size.limit
  n_lt : mul.n < Size.limit
  k_lt : mul.k < Size.limit
  gap : mul.n ≤ mul.ldc
  ldc_lt : mul.ldc < Size.limit
  span_lt : mul.m * mul.ldc < Size.limit
  left_stride_lt : mul.a.stride < Size.limit
  right_stride_lt : mul.b.stride < Size.limit
  left_lt : 0 < mul.k → mul.a.extent mul.m mul.k < Size.limit
  right_lt : 0 < mul.k → mul.b.extent mul.k mul.n < Size.limit
  /-- The end of a tile may lie behind the end of the rows that are cut into tiles. -/
  tiles_lt : mul.b.transposed = false → mul.k < Size.bufferLimit ∧ mul.n < Size.bufferLimit

/-- The buffers hold the three matrices. -/
structure Reaches (mul : DenseMultiply α) (len : Nat) : Prop where
  target : (mul.m - 1) * mul.ldc + mul.n ≤ len
  left : 0 < mul.k → mul.a.extent mul.m mul.k ≤ mul.a.data.size
  right : 0 < mul.k → mul.b.extent mul.k mul.n ≤ mul.b.data.size

/-!
## Elements
-/

section

variable [Zero α] [One α] [Add α] [Mul α] [BEq α]

/-- The element in row `i` and column `j` of the result, from the old element. -/
def element (mul : DenseMultiply α) (i j : Nat) (old : α) : α :=
  if mul.k = 0 then
    scaled mul.beta old
  else if mul.b.transposed then
    let sum := mul.alpha * rowProduct mul.k (mul.a.value i) fun p => mul.b.value p j
    if mul.beta == 0 then sum else sum + mul.beta * old
  else
    (List.range mul.k).foldl (fun acc p => acc + mul.alpha * mul.a.value i p * mul.b.value p j)
      (scaled mul.beta old)

/-- A zero factor makes the old element irrelevant. -/
theorem element_of_beta_zero {mul : DenseMultiply α} (h : (mul.beta == 0) = true) (i j : Nat)
    (old old' : α) : mul.element i j old = mul.element i j old' := by
  have hscaled : scaled mul.beta old = scaled mul.beta old' := by
    rw [scaled, scaled, if_pos h, if_pos h]
  rw [element, element, hscaled]
  simp only [h, if_true]

/-!
## Rows of `C`
-/

variable {mul : DenseMultiply α} {len i : Nat}

omit [Zero α] [One α] [Add α] [Mul α] [BEq α] in
theorem check_ok (hm : 0 < mul.m) (hn : 0 < mul.n) (hb : mul.Bounded) (hr : mul.Reaches len) :
    mul.check len = .ok () := by
  have hlast := Nat.lt_of_le_of_lt (last_row_le hm hb.gap) hb.span_lt
  rw [check, check_bind hb.gap, Size.checked_bind hlast, check_bind hr.target]
  rcases Nat.eq_zero_or_pos mul.k with hk | hk
  · rw [if_neg (not_not.mpr hk)]
    rfl
  · have hleft : mul.a.checkLength .a mul.m mul.k = .ok () :=
      Operand.checkLength_ok (hr.left hk) (mul.a.storedCols_pos hm hk) (hb.left_lt hk)
    have hright : mul.b.checkLength .b mul.k mul.n = .ok () :=
      Operand.checkLength_ok (hr.right hk) (mul.b.storedCols_pos hk hn) (hb.right_lt hk)
    rw [if_pos (Nat.ne_of_gt hk), hleft, ok_bind, hright]

section

variable (hr : mul.Reaches len) (hi : i < mul.m)
include hr hi

omit [One α] [BEq α] in
/-- One step of the tiled loops: a stretch of a row of `B`, times an entry of `A`. -/
theorem acts_addLine (hplain : mul.b.transposed = false) {p j₀ width : Nat} (hp : p < mul.k)
    (hwidth : j₀ + width ≤ mul.n) :
    Acts (do
        let x ← mul.a.entry i p
        let line ← slice mul.b.data (p * mul.b.stride + j₀) width
        onSlice j₀ width (addScaled (mul.alpha * x) line) : BufferM α mul.n Unit)
      (fun j y => if j₀ ≤ j ∧ j < j₀ + width
        then y + mul.alpha * mul.a.value i p * mul.b.value p j else y) := by
  have hk := Nat.zero_lt_of_lt hp
  have hentry := Operand.entry_ok (hr.left hk) hi hp
  have hright := hr.right hk
  simp only [Operand.extent, Operand.storedRows, Operand.storedCols, hplain, Bool.false_eq_true,
    if_false] at hright
  have hfit : p * mul.b.stride + j₀ + width ≤ mul.b.data.size := by
    rw [Nat.add_assoc]
    exact Nat.le_trans (Nat.add_le_add_left hwidth _) (row_end_le hright hp)
  have hvalue : ∀ j, mul.b.data.getD (p * mul.b.stride + j₀ + j) 0 = mul.b.value p (j₀ + j) := by
    intro j
    rw [Operand.value, Operand.place, hplain, if_neg Bool.false_ne_true, Nat.add_assoc]
  have hadd : Acts (addScaled (mul.alpha * mul.a.value i p)
      (tabulate width fun j => mul.b.data.getD (p * mul.b.stride + j₀ + j) 0) :
        BufferM α width Unit)
      (fun j y => y + mul.alpha * mul.a.value i p * mul.b.value p (j₀ + j)) := by
    apply acts_addScaled
    · rw [size_tabulate]
    · intro j hj
      rw [getElem_tabulate, hvalue]
  rw [lift_bind hentry, lift_bind (slice_ok hfit 0)]
  apply Acts.congr (acts_onSlice hwidth hadd)
  intro j _ y
  by_cases hin : j₀ ≤ j ∧ j < j₀ + width
  · rw [if_pos hin, if_pos hin, Nat.add_sub_cancel' hin.1]
  · rw [if_neg hin, if_neg hin]

omit [One α] [BEq α] in
/-- The tiles of a row of `C` take, together, one round of products each from the rows `p` of
`B` that are visited. -/
theorem acts_addTiles (hplain : mul.b.transposed = false) {tile p₀ : Nat} (htile : 0 < tile) :
    Acts (forStrided mul.n tile fun j₀ => forTile mul.k tile p₀ fun p => do
        let x ← mul.a.entry i p
        let line ← slice mul.b.data (p * mul.b.stride + j₀) (min (j₀ + tile) mul.n - j₀)
        onSlice j₀ (min (j₀ + tile) mul.n - j₀) (addScaled (mul.alpha * x) line) :
          BufferM α mul.n Unit)
      (fun j y => (List.range' p₀ (min (p₀ + tile) mul.k - p₀)).foldl
        (fun acc p => acc + mul.alpha * mul.a.value i p * mul.b.value p j) y) := by
  have hround : ∀ t < strideCount mul.n tile, Acts (forTile mul.k tile p₀ fun p => do
      let x ← mul.a.entry i p
      let line ← slice mul.b.data (p * mul.b.stride + t * tile)
        (min (t * tile + tile) mul.n - t * tile)
      onSlice (t * tile) (min (t * tile + tile) mul.n - t * tile)
        (addScaled (mul.alpha * x) line) : BufferM α mul.n Unit)
      (fun j y => (List.range' p₀ (min (p₀ + tile) mul.k - p₀)).foldl
        (fun acc p => if t * tile ≤ j ∧ j < t * tile + (min (t * tile + tile) mul.n - t * tile)
          then acc + mul.alpha * mul.a.value i p * mul.b.value p j else acc) y) := by
    intro t ht
    have hstart := mul_lt_of_lt_strideCount htile ht
    apply acts_forRange
    intro p _ hp
    exact acts_addLine hr hi hplain (by omega) (by omega)
  apply Acts.congr (acts_forRange_zero hround)
  intro j hj y
  -- only the tile of the cell acts on it
  rcases mem_tile htile hj with ⟨hlo, hhi⟩
  rw [foldl_range_of_lt (div_lt_strideCount htile hj)]
  · simp only [hlo, hhi, and_self, if_true]
  · intro t _ hne z
    apply foldl_idle
    intro p _ z
    rw [if_neg]
    rintro ⟨hlo', hhi'⟩
    apply hne
    symm
    apply Nat.div_eq_of_lt_le hlo'
    rw [Nat.succ_mul]
    omega

theorem acts_addRows (hplain : mul.b.transposed = false) {tile : Nat} (htile : 0 < tile) :
    Acts (mul.addRows tile i : BufferM α mul.n Unit)
      (fun j old => (List.range mul.k).foldl
        (fun acc p => acc + mul.alpha * mul.a.value i p * mul.b.value p j)
        (scaled mul.beta old)) := by
  have htiles : Acts (forStrided mul.k tile fun p₀ => forStrided mul.n tile fun j₀ =>
      forTile mul.k tile p₀ fun p => do
        let x ← mul.a.entry i p
        let line ← slice mul.b.data (p * mul.b.stride + j₀) (min (j₀ + tile) mul.n - j₀)
        onSlice j₀ (min (j₀ + tile) mul.n - j₀) (addScaled (mul.alpha * x) line) :
          BufferM α mul.n Unit) _ :=
    acts_forRange_zero fun t _ => acts_addTiles hr hi hplain htile
  apply Acts.congr (Acts.bind (acts_scale mul.beta) htiles)
  intro j _ old
  rw [foldl_tiles htile]

omit [One α] [BEq α] in
theorem rowSum_ok (hk : 0 < mul.k) (v : Nat → α) :
    mul.rowSum i (tabulate mul.k v) = .ok (rowProduct mul.k (mul.a.value i) v) := by
  rw [rowSum]
  cases hcase : mul.a.transposed with
  | false =>
      have hleft := hr.left hk
      simp only [Operand.extent, Operand.storedRows, Operand.storedCols, hcase,
        Bool.false_eq_true, if_false] at hleft
      have hvalue : ∀ p, mul.a.value i p = mul.a.data.getD (i * mul.a.stride + p) 0 := by
        intro p
        rw [Operand.value, Operand.place, hcase, if_neg Bool.false_ne_true]
      rw [if_neg Bool.false_ne_true, slice_ok (row_end_le hleft hi) 0, ok_bind, toList_tabulate,
        toList_tabulate, dotFrom_map]
      simp only [← hvalue]
      rfl
  | true =>
      rw [if_pos rfl]
      apply foldRange_zero_ok
      intro p hp acc
      rw [Operand.entry_ok (hr.left hk) hi hp, ok_bind, fetch_tabulate hp, ok_bind]
      rfl

theorem acts_dotRows (hk : 0 < mul.k) (hcols : mul.b.transposed = true) :
    Acts (mul.dotRows i : BufferM α mul.n Unit) (mul.element i) := by
  have hright := hr.right hk
  simp only [Operand.extent, Operand.storedRows, Operand.storedCols, hcols, if_true] at hright
  have hround : ∀ j < mul.n, Acts (do
      let row ← slice mul.b.data (j * mul.b.stride) mul.k
      let acc ← mul.rowSum i row
      if mul.beta == 0 then
        write j (mul.alpha * acc)
      else
        let old ← read j
        write j (mul.alpha * acc + mul.beta * old) : BufferM α mul.n Unit)
      (fun q old => if q = j then mul.element i j old else old) := by
    intro j hj
    have hvalue : (fun p => mul.b.data.getD (j * mul.b.stride + p) 0) =
        fun p => mul.b.value p j := by
      funext p
      rw [Operand.value, Operand.place, hcols, if_pos rfl]
    rw [lift_bind (slice_ok (row_end_le hright hj) 0), hvalue, lift_bind (rowSum_ok hr hi hk _)]
    simp only [element, Nat.ne_of_gt hk, hcols, if_true, if_false]
    cases hbeta : (mul.beta == 0) with
    | false =>
        simp only [Bool.false_eq_true, if_false]
        exact acts_update hj _
    | true =>
        simp only [if_true]
        exact acts_write hj _
  apply Acts.congr (acts_forRange_zero hround)
  intro j hj old
  rw [foldl_range_of_lt hj, if_pos rfl]
  intro q _ hne old
  rw [if_neg fun hEq => hne hEq.symm]

/-- A row of the product, whichever way it is computed. -/
theorem acts_row (hk : 0 < mul.k) {tile : Nat} (htile : 0 < tile) :
    Acts (mul.row tile i : BufferM α mul.n Unit) (mul.element i) := by
  rw [row]
  cases hcase : mul.b.transposed with
  | false =>
      apply (acts_addRows hr hi hcase htile).congr
      intro j _ old
      rw [element, if_neg (Nat.ne_of_gt hk), hcase, if_neg Bool.false_ne_true]
  | true =>
      exact acts_dotRows hr hi hk hcase

end

/-!
## The whole of `C`
-/

/-- The rows of `C`, with and without gaps between them. -/
theorem acts_rowsOf (schedule : Schedule) (tile : Nat) (hm : 0 < mul.m) (hn : 0 < mul.n)
    (hgap : mul.n ≤ mul.ldc) (hr : mul.Reaches len) :
    Acts (if mul.k = 0 then
        forRange 0 mul.m fun i => onSlice (i * mul.ldc) mul.n (scale mul.beta)
      else if mul.ldc = mul.n then
        onChunks schedule mul.ldc fun i _ => onSlice 0 mul.n (mul.row (max tile 1) i)
      else
        forRange 0 mul.m fun i => onSlice (i * mul.ldc) mul.n (mul.row (max tile 1) i) :
          BufferM α ((mul.m - 1) * mul.ldc + mul.n) Unit)
      (inRows mul.m mul.ldc mul.n mul.element) := by
  rcases Nat.eq_zero_or_pos mul.k with hk | hk
  · rw [if_pos hk]
    apply (acts_rows hgap (fun r hrow => row_end_le (Nat.le_refl _) hrow)
      fun r _ => acts_scale mul.beta).congr
    intro q _ old
    simp only [inRows, element, hk, if_true]
  · rw [if_neg (Nat.ne_of_gt hk)]
    exact acts_chunksOrRows hgap schedule hm hn fun r hrow =>
      acts_row hr hrow hk (Nat.le_max_right tile 1)

/-- The multiply ends without a fault and acts on the elements of `C` alone. -/
theorem acts_run (schedule : Schedule) (tile : Nat) (hm : 0 < mul.m) (hn : 0 < mul.n)
    (hb : mul.Bounded) (hr : mul.Reaches len) :
    Acts (run schedule tile mul : BufferM α len Unit)
      (inRows mul.m mul.ldc mul.n mul.element) := by
  have hpos : ¬ (mul.m = 0 ∨ mul.n = 0) := by
    rintro (h | h)
    · exact Nat.ne_of_gt hm h
    · exact Nat.ne_of_gt hn h
  unfold run
  rw [if_neg hpos, lift_bind (check_ok hm hn hb hr), lift_bind (Size.checked_of_lt hb.span_lt),
    span_sub_gap hm hb.gap]
  exact acts_onSlice_inRows hr.target (acts_rowsOf schedule tile hm hn hb.gap hr)

/-- An empty `C` is left alone, whatever the other sizes are. -/
theorem run_empty (schedule : Schedule) (tile : Nat)
    (h : mul.m = 0 ∨ mul.n = 0) (v : Vector α len) : run schedule tile mul v = .ok () v := by
  rw [run, if_pos h]
  rfl

end

/-!
## Rows times rows
-/

section

variable [Zero α] [One α]

/-- `A * Bᵀ` with `k` products per element, into a buffer without gaps. -/
def ofRows (m n k : Nat) (a b : Array α) : DenseMultiply α where
  m := m
  n := n
  k := k
  alpha := 1
  beta := 0
  a := ⟨a, k, false⟩
  b := ⟨b, k, true⟩
  ldc := n

variable {m n k : Nat} {a b : Array α} {A B : Nat → Nat → α}

theorem bounded_ofRows (hm : 0 < m) (hn : 0 < n) (hleft : m * k < Size.limit)
    (hright : n * k < Size.limit) (hlimit : m * n < Size.limit) :
    (ofRows m n k a b).Bounded where
  m_lt := Nat.lt_of_le_of_lt (Nat.le_mul_of_pos_right m hn) hlimit
  n_lt := Nat.lt_of_le_of_lt (Nat.le_mul_of_pos_left n hm) hlimit
  k_lt := Nat.lt_of_le_of_lt (Nat.le_mul_of_pos_left k hm) hleft
  gap := Nat.le_refl n
  ldc_lt := Nat.lt_of_le_of_lt (Nat.le_mul_of_pos_left n hm) hlimit
  span_lt := hlimit
  left_stride_lt := Nat.lt_of_le_of_lt (Nat.le_mul_of_pos_left k hm) hleft
  right_stride_lt := Nat.lt_of_le_of_lt (Nat.le_mul_of_pos_left k hm) hleft
  left_lt _ := Nat.lt_of_le_of_lt (last_row_le hm (Nat.le_refl k)) hleft
  right_lt _ := Nat.lt_of_le_of_lt (last_row_le hn (Nat.le_refl k)) hright
  tiles_lt h := by
    cases h

theorem reaches_ofRows (hm : 0 < m) (hn : 0 < n) (ha : HoldsRows a m k A)
    (hb : HoldsRows b n k B) : (ofRows m n k a b).Reaches (m * n) where
  target := last_row_le hm (Nat.le_refl n)
  left _ := Nat.le_trans (last_row_le hm (Nat.le_refl k)) (Nat.le_of_eq ha.size_eq.symm)
  right _ := Nat.le_trans (last_row_le hn (Nat.le_refl k)) (Nat.le_of_eq hb.size_eq.symm)

/-- The multiply of two matrices of rows, for every tile and schedule. -/
theorem fills_run [Add α] [Mul α] [BEq α] [ZeroTest α] (schedule : Schedule) (tile : Nat)
    (hm : 0 < m) (hn : 0 < n) (hk : 0 < k) (ha : HoldsRows a m k A) (hb : HoldsRows b n k B)
    (halimit : a.size < Size.limit) (hblimit : b.size < Size.limit)
    (hlimit : m * n < Size.limit) :
    Fills (run schedule tile (ofRows m n k a b) : BufferM α (m * n) Unit)
      (fun c => 1 * rowProduct k (A (c / n)) (B (c % n))) := by
  rw [ha.size_eq] at halimit
  rw [hb.size_eq] at hblimit
  have hbounded : (ofRows m n k a b).Bounded := bounded_ofRows hm hn halimit hblimit hlimit
  apply (acts_run schedule tile hm hn hbounded (reaches_ofRows hm hn ha hb)).congr
  intro c hc old
  have hrow : c / n < m := div_lt_of_lt_mul hc
  have hcol : c % n < n := mod_lt_of_lt_mul hc
  have hin : c / (ofRows m n k a b).ldc < (ofRows m n k a b).m ∧
      c % (ofRows m n k a b).ldc < (ofRows m n k a b).n := ⟨hrow, hcol⟩
  have hk' : ¬ (ofRows m n k a b).k = 0 := Nat.ne_of_gt hk
  have hright : (ofRows m n k a b).b.transposed = true := rfl
  have hzero : ((ofRows m n k a b).beta == 0) = true := ZeroTest.zero_beq_zero
  rw [inRows, if_pos hin, element, if_neg hk', if_pos hright]
  simp only [hzero, if_true]
  show 1 * rowProduct k _ _ = 1 * rowProduct k _ _
  congr 1
  apply rowProduct_congr
  · intro p hp
    exact getD_of_getElem? (ha.getElem?_eq _ hrow p hp) 0
  · intro p hp
    exact getD_of_getElem? (hb.getElem?_eq _ hcol p hp) 0

end

end DenseMultiply
end ConvSweep
