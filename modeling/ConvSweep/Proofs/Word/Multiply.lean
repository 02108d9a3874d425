import Mathlib
import ConvSweep.Proofs.Matrix.Sparse
import ConvSweep.Proofs.Word.Offset

/-!
# Multiplies in machine words

The two multiplies and the pruning with every size operation checked: the contract
between sizes and buffers, the rows cut out between two offsets, and the ends of
tiles.  Once the contract is met, and for every tile and stride, none of these
operations can fail.
-/

namespace ConvSweep

open Loop

namespace Word

variable {α : Type}

/-!
## The dense multiply
-/

/-- The entry of the operand, transposed or not, at row `i` and column `j`. -/
def entry (x : Operand α) (i j : Nat) : Except Fault α :=
  if x.transposed then fetchAt x.data (j * x.stride + i) else fetchAt x.data (i * x.stride + j)

def checkLength (x : Operand α) (name : MatrixName) (rows cols : Nat) : Except Fault Unit := do
  let least ← ((x.storedRows rows cols - 1) * x.stride + 1 : Offset).eval
  (Fault.shortMatrix name).check (least ≤ x.data.size)

def checkDense (mul : DenseMultiply α) (length : Nat) : Except Fault Unit := do
  (Fault.shortStride .c mul.ldc mul.n).check (mul.n ≤ mul.ldc)
  let least ← ((mul.m - 1) * mul.ldc + mul.n : Offset).eval
  (Fault.shortMatrix .c).check (least ≤ length)
  if mul.k ≠ 0 then
    checkLength mul.a .a mul.m mul.k
    checkLength mul.b .b mul.k mul.n

section

variable [Zero α] [One α] [Add α] [Mul α] [BEq α]

def addRows (mul : DenseMultiply α) (tile i : Nat) {len : Nat} : BufferM α len Unit := do
  BufferM.scale mul.beta
  forStrided mul.k tile fun p₀ => do
    let p₁ ← (p₀ + tile : Offset).eval
    forStrided mul.n tile fun j₀ => do
      let j₁ ← (j₀ + tile : Offset).eval
      forRange p₀ (min p₁ mul.k - p₀) fun p => do
        let x ← entry mul.a i p
        let start ← (p * mul.b.stride : Offset).eval
        let line ← span mul.b.data (start + j₀) (start + min j₁ mul.n)
        onSpan j₀ (min j₁ mul.n : Nat) fun _ => BufferM.addScaled (mul.alpha * x) line

omit [One α] [BEq α] in
def rowSum (mul : DenseMultiply α) (i : Nat) (row : Array α) : Except Fault α :=
  if mul.a.transposed then
    foldRange 0 mul.k (fun acc p => do
      let x ← entry mul.a i p
      let y ← fetch row p
      return acc + x * y) 0
  else do
    let xs ← span mul.a.data (i * mul.a.stride) (i * mul.a.stride + mul.k)
    return dotFrom 0 xs.toList row.toList

def dotRows (mul : DenseMultiply α) (i : Nat) {len : Nat} : BufferM α len Unit :=
  forRange 0 mul.n fun j => do
    let row ← span mul.b.data (j * mul.b.stride) (j * mul.b.stride + mul.k)
    let acc ← rowSum mul i row
    if mul.beta == 0 then
      BufferM.write j (mul.alpha * acc)
    else
      let old ← BufferM.read j
      BufferM.write j (mul.alpha * acc + mul.beta * old)

def denseRow (mul : DenseMultiply α) (tile i : Nat) {len : Nat} : BufferM α len Unit :=
  if mul.b.transposed then dotRows mul i else addRows mul tile i

def runDense (schedule : Schedule) (tile : Nat) (mul : DenseMultiply α) {len : Nat} :
    BufferM α len Unit := do
  if mul.m = 0 ∨ mul.n = 0 then
    return
  checkDense mul len
  let total ← (mul.m * mul.ldc - (mul.ldc - mul.n) : Offset).eval
  BufferM.onSlice 0 total <|
    if mul.k = 0 then
      forRange 0 mul.m fun i =>
        onSpan (i * mul.ldc) (i * mul.ldc + mul.n) fun _ => BufferM.scale mul.beta
    else if mul.ldc = mul.n then
      BufferM.onChunks schedule mul.ldc fun i _ =>
        BufferM.onSlice 0 mul.n (denseRow mul (max tile 1) i)
    else
      forRange 0 mul.m fun i => do
        let start ← (i * mul.ldc : Offset).eval
        onSpan start (start + mul.n) fun _ => denseRow mul (max tile 1) i

end

/-!
## The sparse multiply
-/

section

variable [Zero α] [One α] [Add α] [Mul α] [BEq α]

omit [Zero α] [One α] [Add α] [Mul α] [BEq α] in
def checkSparse (mul : SparseMultiply α) (length : Nat) : Except Fault Unit := do
  (Fault.shortMatrix .c).check (mul.n ≤ mul.ldc)
  let least ← ((mul.a.rows - 1) * mul.ldc + mul.n : Offset).eval
  (Fault.shortMatrix .c).check (least ≤ length)
  (Fault.shortStride .b mul.ldb mul.n).check (mul.n ≤ mul.ldb)
  if mul.a.cols ≠ 0 then
    let least ← ((mul.a.cols - 1) * mul.ldb + mul.n : Offset).eval
    (Fault.shortMatrix .b).check (least ≤ mul.b.size)

def sparseRow (mul : SparseMultiply α) (r : Nat) {len : Nat} : BufferM α len Unit := do
  BufferM.scale mul.beta
  let stored ← mul.a.entries r
  stored.forM fun (c, x) => do
    let start ← (c * mul.ldb : Offset).eval
    let line ← span mul.b start (start + mul.n)
    BufferM.addScaled (mul.alpha * x) line

def runSparse (schedule : Schedule) (mul : SparseMultiply α) {len : Nat} :
    BufferM α len Unit := do
  if mul.a.rows = 0 ∨ mul.n = 0 then
    return
  checkSparse mul len
  let total ← ((mul.a.rows - 1) * mul.ldc + mul.n : Offset).eval
  BufferM.onSlice 0 total <|
    if mul.ldc = mul.n then
      BufferM.onChunks schedule mul.ldc fun r _ => BufferM.onSlice 0 mul.n (sparseRow mul r)
    else
      forRange 0 mul.a.rows fun r =>
        onSpan (r * mul.ldc) (r * mul.ldc + mul.n) fun _ => sparseRow mul r

end

/-!
## Pruning
-/

section

variable [PruningOrder α]

def threshold (drop : Nat) (row : List α) : Except Fault (Option α) := do
  if drop = 0 then
    return none
  let last ← (drop - 1 : Offset).eval
  let limit ← fetch (row.mergeSort PruningOrder.ranksBefore).toArray last
  return some limit

def pruneRow (level : Percentile) (weights : Array α) (cols r : Nat) :
    Except Fault (List (Nat × α)) := do
  let row ← span weights (r * cols) ((r + 1) * cols)
  let limit ← threshold (level.dropCount row.size) row.toList
  return keptEntries limit row.toList

/-- The entries that are kept, row by row. -/
def keptRows (level : Percentile) (weights : Array α) (rows cols : Nat) :
    Except Fault (List (List (Nat × α))) :=
  (List.range rows).mapM (pruneRow level weights cols)

def prune (level : Percentile) (weights : Array α) (rows cols : Nat) : Outcome (CsrMatrix α) := do
  let length ← (rows * cols : Offset).eval
  if weights.size ≠ length then
    throw (.error (.shapeMismatch (.matrixSize weights.size rows cols)))
  Fault.capacity.check (rows < offsetLimit)
  let kept ← keptRows level weights rows cols
  return CsrMatrix.ofRows cols kept

end

/-!
## The checks of the dense multiply do not show
-/

theorem entry_eq {x : Operand α} {rows cols i j : Nat} (hrows : rows < Size.limit)
    (hcols : cols < Size.limit) (hstride : x.stride < Size.limit)
    (hlt : x.extent rows cols < Size.limit) (hi : i < rows) (hj : j < cols) :
    entry x i j = x.entry i j := by
  have hplace := Nat.lt_trans (Operand.place_lt (Nat.le_refl _) hi hj) hlt
  rw [Operand.place] at hplace
  rw [entry, Operand.entry]
  cases hcase : x.transposed with
  | false =>
      simp only [hcase, Bool.false_eq_true, if_false] at hplace ⊢
      exact fetchAt_of_eval (Offset.eval_place (Nat.lt_trans hi hrows) hstride hplace)
  | true =>
      simp only [hcase, if_true] at hplace ⊢
      exact fetchAt_of_eval (Offset.eval_place (Nat.lt_trans hj hcols) hstride hplace)

theorem checkLength_eq {x : Operand α} {rows cols : Nat} (name : MatrixName) (hrows : 0 < rows)
    (hcols : 0 < cols) (hrows_lt : rows < Size.limit) (hcols_lt : cols < Size.limit)
    (hstride : x.stride < Size.limit) :
    checkLength x name rows cols = x.checkLength name rows cols := by
  have hpos := x.storedRows_pos hrows hcols
  have hlt : x.storedRows rows cols < Size.limit := by
    rw [Operand.storedRows]
    split
    · exact hcols_lt
    · exact hrows_lt
  have heval : ((x.storedRows rows cols - 1) * x.stride + 1 : Offset).eval = _ :=
    Offset.eval_last_row hpos hlt hstride
  rw [checkLength, heval]
  rfl

/-- The contract is checked alike for words of any size, whether it is met or not. -/
theorem checkDense_eq_of_lt {mul : DenseMultiply α} (hm : 0 < mul.m) (hn : 0 < mul.n)
    (hm_lt : mul.m < Size.limit) (hn_lt : mul.n < Size.limit) (hk_lt : mul.k < Size.limit)
    (hldc : mul.ldc < Size.limit) (hleft : mul.a.stride < Size.limit)
    (hright : mul.b.stride < Size.limit) (length : Nat) :
    checkDense mul length = mul.check length := by
  have heval : ((mul.m - 1) * mul.ldc + mul.n : Offset).eval = _ :=
    Offset.eval_last_row hm hm_lt hldc
  rw [checkDense, DenseMultiply.check, heval]
  rcases Nat.eq_zero_or_pos mul.k with hk | hk
  · rw [if_neg (not_not.mpr hk), if_neg (not_not.mpr hk)]
  · rw [checkLength_eq .a hm hk hm_lt hk_lt hleft, checkLength_eq .b hk hn hk_lt hn_lt hright]

section

variable {mul : DenseMultiply α} (hb : mul.Bounded)
include hb

theorem checkDense_eq (hm : 0 < mul.m) (hn : 0 < mul.n) (length : Nat) :
    checkDense mul length = mul.check length :=
  checkDense_eq_of_lt hm hn hb.m_lt hb.n_lt hb.k_lt hb.ldc_lt hb.left_stride_lt
    hb.right_stride_lt length

variable [Zero α] [One α] [Add α] [Mul α] [BEq α] {i len : Nat} (hi : i < mul.m)
include hi

omit [Zero α] [One α] [BEq α] in
/-- A stretch of a row of `B` is cut out between two ends, and so is the stretch of `C`. -/
theorem addLine_eq (hplain : mul.b.transposed = false) {p j₀ j₁ : Nat} (hp : p < mul.k)
    (hle : j₀ ≤ j₁) (hj₁ : j₁ ≤ mul.n) :
    (do
      let x ← entry mul.a i p
      let start ← (p * mul.b.stride : Offset).eval
      let line ← span mul.b.data (start + j₀) (start + j₁)
      onSpan j₀ j₁ fun _ => BufferM.addScaled (mul.alpha * x) line : BufferM α len Unit) =
    (do
      let x ← mul.a.entry i p
      let line ← slice mul.b.data (p * mul.b.stride + j₀) (j₁ - j₀)
      BufferM.onSlice j₀ (j₁ - j₀) (BufferM.addScaled (mul.alpha * x) line)) := by
  have hk := Nat.zero_lt_of_lt hp
  have hright := hb.right_lt hk
  simp only [Operand.extent, Operand.storedRows, Operand.storedCols, hplain, Bool.false_eq_true,
    if_false] at hright
  have hend := Nat.lt_of_le_of_lt (row_end_le (Nat.le_refl _) hp) hright
  have hstart : (p * mul.b.stride : Offset).eval = .ok (p * mul.b.stride) :=
    Offset.eval_mul (Offset.eval_size (Nat.lt_trans hp hb.k_lt))
      (Offset.eval_size hb.right_stride_lt) (Nat.lt_of_le_of_lt (Nat.le_add_right _ _) hend)
  have hfirst : (Offset.size (p * mul.b.stride) + Offset.size j₀).eval =
      .ok (p * mul.b.stride + j₀) :=
    Offset.eval_of_rises (by simp) (Nat.lt_of_le_of_lt (by simp; omega) hend)
  have hlast : (Offset.size (p * mul.b.stride) + Offset.size j₁).eval =
      .ok (p * mul.b.stride + j₀ + (j₁ - j₀)) := by
    rw [Nat.add_assoc, Nat.add_sub_cancel' hle]
    exact Offset.eval_of_rises (by simp) (Nat.lt_of_le_of_lt (by simp; omega) hend)
  have hopen : (Offset.size j₀).eval = .ok j₀ :=
    Offset.eval_size (Nat.lt_of_le_of_lt (Nat.le_trans hle hj₁) hb.n_lt)
  have hclose : (Offset.size j₁).eval = .ok (j₀ + (j₁ - j₀)) := by
    rw [Nat.add_sub_cancel' hle]
    exact Offset.eval_size (Nat.lt_of_le_of_lt hj₁ hb.n_lt)
  rw [entry_eq hb.m_lt hb.k_lt hb.left_stride_lt (hb.left_lt hk) hi hp]
  congr 1
  funext x
  rw [BufferM.lift_bind hstart, span_of_eval hfirst hlast]
  congr 1
  funext line
  exact onSpan_of_eval hopen hclose

theorem addRows_eq (hplain : mul.b.transposed = false) {tile : Nat} (htile : 0 < tile)
    (htile_lt : tile < Size.limit) :
    (addRows mul tile i : BufferM α len Unit) = mul.addRows tile i := by
  rcases hb.tiles_lt hplain with ⟨hk_lt, hn_lt⟩
  have htile_end : ∀ {extent t : Nat}, extent < Size.bufferLimit → t < strideCount extent tile →
      (Offset.size (t * tile) + Offset.size tile).eval = .ok (t * tile + tile) := by
    intro extent t hextent ht
    exact Offset.eval_of_rises (by simp) (tile_end_lt ht hextent htile_lt)
  rw [addRows, DenseMultiply.addRows]
  congr 1
  funext _
  apply forRange_zero_congr
  intro s hs
  dsimp only
  rw [BufferM.lift_bind (htile_end hk_lt hs)]
  apply forRange_zero_congr
  intro t ht
  dsimp only
  have hstart := mul_lt_of_lt_strideCount htile ht
  rw [BufferM.lift_bind (htile_end hn_lt ht)]
  apply forRange_congr
  intro p _ hp
  exact addLine_eq hb hi hplain (by omega) (Nat.le_min.mpr ⟨Nat.le_add_right _ _, hstart.le⟩)
    (Nat.min_le_right _ _)

omit [One α] [BEq α] in
theorem rowSum_eq (hk : 0 < mul.k) (row : Array α) : rowSum mul i row = mul.rowSum i row := by
  rw [rowSum, DenseMultiply.rowSum]
  cases hcase : mul.a.transposed with
  | false =>
      have hleft := hb.left_lt hk
      simp only [Operand.extent, Operand.storedRows, Operand.storedCols, hcase,
        Bool.false_eq_true, if_false] at hleft
      have hend := Nat.lt_of_le_of_lt (row_end_le (Nat.le_refl _) hi) hleft
      have hspan : span mul.a.data (i * mul.a.stride) (i * mul.a.stride + mul.k) =
          slice mul.a.data (i * mul.a.stride) mul.k := by
        apply span_of_eval
        · exact Offset.eval_mul (Offset.eval_size (Nat.lt_trans hi hb.m_lt))
            (Offset.eval_size hb.left_stride_lt) (by omega)
        · exact Offset.eval_place (Nat.lt_trans hi hb.m_lt) hb.left_stride_lt hend
      rw [if_neg Bool.false_ne_true, if_neg Bool.false_ne_true, hspan]
  | true =>
      rw [if_pos rfl, if_pos rfl]
      apply foldRange_zero_congr
      intro p hp acc
      rw [entry_eq hb.m_lt hb.k_lt hb.left_stride_lt (hb.left_lt hk) hi hp]

omit [One α] in
theorem dotRows_eq (hcols : mul.b.transposed = true) (hk : 0 < mul.k) :
    (dotRows mul i : BufferM α len Unit) = mul.dotRows i := by
  apply forRange_zero_congr
  intro j hj
  have hright := hb.right_lt hk
  simp only [Operand.extent, Operand.storedRows, Operand.storedCols, hcols, if_true] at hright
  have hend := Nat.lt_of_le_of_lt (row_end_le (Nat.le_refl _) hj) hright
  have hspan : span mul.b.data (j * mul.b.stride) (j * mul.b.stride + mul.k) =
      slice mul.b.data (j * mul.b.stride) mul.k := by
    apply span_of_eval
    · exact Offset.eval_mul (Offset.eval_size (Nat.lt_trans hj hb.n_lt))
        (Offset.eval_size hb.right_stride_lt) (by omega)
    · exact Offset.eval_place (Nat.lt_trans hj hb.n_lt) hb.right_stride_lt hend
  rw [hspan]
  congr 1
  funext row
  rw [rowSum_eq hb hi hk]

theorem denseRow_eq (hk : 0 < mul.k) {tile : Nat} (htile : 0 < tile)
    (htile_lt : mul.b.transposed = false → tile < Size.limit) :
    (denseRow mul tile i : BufferM α len Unit) = mul.row tile i := by
  rw [denseRow, DenseMultiply.row]
  cases hcase : mul.b.transposed with
  | false =>
      exact addRows_eq hb hi hcase htile (htile_lt hcase)
  | true =>
      exact dotRows_eq hb hi hcase hk

omit hi in
/-- The dense multiply with all size operations checked; only rows of `B` are cut into tiles. -/
theorem runDense_eq (schedule : Schedule) {tile : Nat}
    (htile : mul.b.transposed = false → tile < Size.limit) :
    (runDense schedule tile mul : BufferM α len Unit) = DenseMultiply.run schedule tile mul := by
  by_cases hempty : mul.m = 0 ∨ mul.n = 0
  · rw [runDense, DenseMultiply.run, if_pos hempty, if_pos hempty]
  · have hm : 0 < mul.m := Nat.pos_of_ne_zero fun h => hempty (Or.inl h)
    have hn : 0 < mul.n := Nat.pos_of_ne_zero fun h => hempty (Or.inr h)
    have hspan := span_sub_gap hm hb.gap
    have hgap_le : mul.ldc - mul.n ≤ mul.m * mul.ldc :=
      Nat.le_trans (Nat.sub_le _ _) (Nat.le_mul_of_pos_left _ hm)
    have htotal : (mul.m * mul.ldc - (mul.ldc - mul.n) : Offset).eval =
        .ok (mul.m * mul.ldc - (mul.ldc - mul.n)) := by
      apply Offset.eval_sub
      · exact Offset.eval_mul (Offset.eval_size hb.m_lt) (Offset.eval_size hb.ldc_lt) hb.span_lt
      · exact Offset.eval_sub (Offset.eval_size hb.ldc_lt) (Offset.eval_size hb.n_lt) hb.gap
      · exact hgap_le
    have hrow : ∀ i < mul.m, i * mul.ldc + mul.n < Size.limit := by
      intro i hi
      exact Nat.lt_of_le_of_lt
        (Nat.le_trans (Nat.add_le_add_left hb.gap _) (mul_add_le mul.ldc hi)) hb.span_lt
    have hstart : ∀ i < mul.m, (i * mul.ldc : Offset).eval = .ok (i * mul.ldc) := by
      intro i hi
      exact Offset.eval_mul (Offset.eval_size (Nat.lt_trans hi hb.m_lt))
        (Offset.eval_size hb.ldc_lt) (Nat.lt_of_le_of_lt (Nat.le_add_right _ _) (hrow i hi))
    have hword : mul.b.transposed = false → max tile 1 < Size.limit :=
      fun hplain => Nat.max_lt.mpr ⟨htile hplain, by decide⟩
    have hpos : 0 < max tile 1 := Nat.le_max_right tile 1
    rw [runDense, DenseMultiply.run, if_neg hempty, if_neg hempty, checkDense_eq hb hm hn]
    congr 1
    funext _
    rw [BufferM.lift_bind htotal, BufferM.lift_bind (Size.checked_of_lt hb.span_lt)]
    congr 1
    rcases Nat.eq_zero_or_pos mul.k with hk | hk
    · rw [if_pos hk, if_pos hk]
      apply forRange_zero_congr
      intro i hi
      exact onSpan_of_eval (hstart i hi)
        (Offset.eval_place (Nat.lt_trans hi hb.m_lt) hb.ldc_lt (hrow i hi))
    · rw [if_neg (Nat.ne_of_gt hk), if_neg (Nat.ne_of_gt hk)]
      by_cases hclose : mul.ldc = mul.n
      · have hchunks : mul.m * mul.ldc - (mul.ldc - mul.n) = mul.m * mul.ldc := by
          rw [hclose, Nat.sub_self, Nat.sub_zero]
        rw [if_pos hclose, if_pos hclose]
        apply BufferM.onChunks_congr schedule hchunks
        intro i hi
        rw [denseRow_eq hb hi hk hpos hword]
      · rw [if_neg hclose, if_neg hclose]
        apply forRange_zero_congr
        intro i hi
        rw [BufferM.lift_bind (hstart i hi), onSpan_from (hrow i hi),
          denseRow_eq hb hi hk hpos hword]

end

/-- The case of two matrices that are stored row by row, where the tile is not used. -/
theorem runDense_ofRows [Zero α] [One α] [Add α] [Mul α] [BEq α] {m n k : Nat} {a b : Array α}
    (hm : 0 < m) (hn : 0 < n) (hleft : m * k < Size.limit) (hright : n * k < Size.limit)
    (hlt : m * n < Size.limit) (schedule : Schedule) (tile : Nat) {len : Nat} :
    (runDense schedule tile (.ofRows m n k a b) : BufferM α len Unit) =
      DenseMultiply.run schedule tile (.ofRows m n k a b) := by
  apply runDense_eq (DenseMultiply.bounded_ofRows hm hn hleft hright hlt)
  intro hplain
  cases hplain

/-!
## The checks of the sparse multiply do not show
-/

/-- The sizes of the multiply are words. -/
structure SparseSizes (mul : SparseMultiply α) : Prop where
  rows_lt : mul.a.rows < Size.limit
  cols_lt : mul.a.cols < Size.limit
  n_lt : mul.n < Size.limit
  ldb_lt : mul.ldb < Size.limit
  ldc_lt : mul.ldc < Size.limit

section

variable {mul : SparseMultiply α} (hsizes : SparseSizes mul)
include hsizes

theorem checkSparse_eq (hm : 0 < mul.a.rows) (length : Nat) :
    checkSparse mul length = mul.check length := by
  have heval : ((mul.a.rows - 1) * mul.ldc + mul.n : Offset).eval = _ :=
    Offset.eval_last_row hm hsizes.rows_lt hsizes.ldc_lt
  rw [checkSparse, SparseMultiply.check, heval]
  rcases Nat.eq_zero_or_pos mul.a.cols with hk | hk
  · rw [if_neg (not_not.mpr hk), if_neg (not_not.mpr hk)]
  · have heval' : ((mul.a.cols - 1) * mul.ldb + mul.n : Offset).eval = _ :=
      Offset.eval_last_row hk hsizes.cols_lt hsizes.ldb_lt
    rw [heval']

variable [Zero α] [One α] [Add α] [Mul α] [BEq α] {keep : Nat → Nat → Bool}
  {A : Nat → Nat → α} (ha : mul.a.Stores mul.a.rows mul.a.cols keep A) {len : Nat}
include ha

theorem sparseRow_eq (hr : mul.Reaches len) {r width : Nat} (hrow : r < mul.a.rows) :
    (sparseRow mul r : BufferM α width Unit) = mul.row r := by
  rw [sparseRow, SparseMultiply.row, ha.entries_eq r hrow]
  congr 1
  funext _
  rw [BufferM.lift_bind rfl, BufferM.lift_bind rfl]
  apply BufferM.forM_congr
  intro entry hentry
  -- a stored column names a row of `B`, which bounds the line that is read
  rcases List.mem_map.mp hentry with ⟨c, hc, hEq⟩
  have hc := List.mem_range.mp (List.mem_filter.mp hc).1
  have hend := Nat.lt_of_le_of_lt (row_end_le (Nat.le_refl _) hc)
    (hr.right_lt (Nat.zero_lt_of_lt hc))
  have hstart : (c * mul.ldb : Offset).eval = .ok (c * mul.ldb) :=
    Offset.eval_mul (Offset.eval_size (Nat.lt_trans hc hsizes.cols_lt))
      (Offset.eval_size hsizes.ldb_lt) (Nat.lt_of_le_of_lt (Nat.le_add_right _ _) hend)
  rw [← hEq]
  dsimp only
  rw [BufferM.lift_bind hstart, span_from hend]

/-- The sparse multiply with all size operations checked, also where one of them stops it. -/
theorem runSparse_eq (schedule : Schedule) :
    (runSparse schedule mul : BufferM α len Unit) = SparseMultiply.run schedule mul := by
  by_cases hempty : mul.a.rows = 0 ∨ mul.n = 0
  · rw [runSparse, SparseMultiply.run, if_pos hempty, if_pos hempty]
  · have hm : 0 < mul.a.rows := Nat.pos_of_ne_zero fun h => hempty (Or.inl h)
    rw [runSparse, SparseMultiply.run, if_neg hempty, if_neg hempty, checkSparse_eq hsizes hm]
    cases hcheck : mul.check len with
    | error fault =>
        rfl
    | ok u =>
        have hr := SparseMultiply.check_ok_iff.mp hcheck
        have htotal : ((mul.a.rows - 1) * mul.ldc + mul.n : Offset).eval =
            .ok ((mul.a.rows - 1) * mul.ldc + mul.n) :=
          (Offset.eval_last_row hm hsizes.rows_lt hsizes.ldc_lt).trans
            (Size.checked_of_lt hr.target_lt)
        rw [BufferM.lift_bind rfl, BufferM.lift_bind rfl, BufferM.lift_bind htotal]
        congr 1
        by_cases hclose : mul.ldc = mul.n
        · have hchunks : (mul.a.rows - 1) * mul.ldc + mul.n = mul.a.rows * mul.ldc := by
            rw [← hclose, ← Nat.succ_mul, Nat.succ_eq_add_one, Nat.sub_add_cancel hm]
          rw [if_pos hclose, if_pos hclose]
          apply BufferM.onChunks_congr schedule hchunks
          intro r hrow
          rw [sparseRow_eq hsizes ha hr hrow]
        · rw [if_neg hclose, if_neg hclose]
          apply forRange_zero_congr
          intro r hrow
          have hend := Nat.lt_of_le_of_lt (row_end_le (Nat.le_refl _) hrow) hr.target_lt
          have hstart : (r * mul.ldc : Offset).eval = .ok (r * mul.ldc) :=
            Offset.eval_mul (Offset.eval_size (Nat.lt_trans hrow hsizes.rows_lt))
              (Offset.eval_size hsizes.ldc_lt) (Nat.lt_of_le_of_lt (Nat.le_add_right _ _) hend)
          have hstop : (r * mul.ldc + mul.n : Offset).eval = .ok (r * mul.ldc + mul.n) :=
            Offset.eval_place (Nat.lt_trans hrow hsizes.rows_lt) hsizes.ldc_lt hend
          rw [onSpan_of_eval hstart hstop, sparseRow_eq hsizes ha hr hrow]

end

/-- The case of a right matrix that is stored row by row. -/
theorem runSparse_ofRows [Zero α] [One α] [Add α] [Mul α] [BEq α] {m n k : Nat}
    {matrix : CsrMatrix α} {b : Array α} {keep : Nat → Nat → Bool} {A : Nat → Nat → α}
    (hm : Offset.Counts m) (hn : Offset.Counts n) (hk : Offset.Counts k)
    (hmatrix : matrix.Stores m k keep A) (schedule : Schedule) {len : Nat} :
    (runSparse schedule (.ofRows n matrix b) : BufferM α len Unit) =
      SparseMultiply.run schedule (.ofRows n matrix b) := by
  have hrows := hmatrix.rows_eq
  have hcols := hmatrix.cols_eq
  subst hrows hcols
  have hstores : (SparseMultiply.ofRows n matrix b).a.Stores matrix.rows matrix.cols keep A :=
    hmatrix
  have hsizes : SparseSizes (SparseMultiply.ofRows n matrix b) :=
    { rows_lt := hm.2
      cols_lt := hk.2
      n_lt := hn.2
      ldb_lt := hn.2
      ldc_lt := hn.2 }
  exact runSparse_eq hsizes hstores schedule

/-!
## Pruned rows
-/

section

variable [PruningOrder α]

theorem threshold_ok {drop : Nat} {row : List α} (hdrop : drop ≤ row.length)
    (hlimit : drop < Size.limit) :
    threshold drop row = .ok (ConvSweep.threshold drop row) := by
  by_cases hzero : drop = 0
  · rw [threshold, if_pos hzero, ConvSweep.threshold, if_pos hzero]
    rfl
  · have hlast : drop - 1 < (row.mergeSort PruningOrder.ranksBefore).toArray.size := by
      rw [List.size_toArray, List.length_mergeSort]
      omega
    have heval : (drop - 1 : Offset).eval = .ok (drop - 1) :=
      Offset.eval_sub (Offset.eval_size hlimit) rfl (Nat.pos_of_ne_zero hzero)
    rw [threshold, if_neg hzero, heval, ok_bind, fetch, Array.getElem?_eq_getElem hlast,
      ConvSweep.threshold, if_neg hzero]
    rw [List.getElem?_eq_getElem hlast]
    rfl

theorem pruneRow_ok (level : Percentile) {weights : Array α} {rows cols r : Nat}
    (hrows : rows < Size.limit) (hcols : cols < Size.limit) (hsize : weights.size = rows * cols)
    (hlimit : rows * cols < Size.limit) (hr : r < rows) :
    pruneRow level weights cols r =
      .ok (level.pruneRow (matrixRow weights cols r)) := by
  have hend : r * cols + cols ≤ rows * cols := mul_add_le cols hr
  have hfit : r * cols + cols ≤ weights.size := by
    rw [hsize]
    exact hend
  have hrow : span weights (r * cols) ((r + 1) * cols) = slice weights (r * cols) cols := by
    have hindex : (r : Offset).eval = .ok r := Offset.eval_size (by omega)
    have hnext : (r + 1 : Offset).eval = .ok (r + 1) :=
      Offset.eval_add hindex (Offset.eval_size (by decide)) (by omega)
    apply span_of_eval
    · exact Offset.eval_mul hindex (Offset.eval_size hcols) (by omega)
    · rw [← Nat.succ_mul] at hend ⊢
      exact Offset.eval_mul hnext (Offset.eval_size hcols) (by omega)
  have hlength : (weights.extract (r * cols) (r * cols + cols)).size = cols := by
    rw [Array.size_extract]
    omega
  have hdrop : level.dropCount (weights.extract (r * cols) (r * cols + cols)).size ≤
      (weights.extract (r * cols) (r * cols + cols)).toList.length :=
    Nat.min_le_right _ _
  have hword :
      level.dropCount (weights.extract (r * cols) (r * cols + cols)).size < Size.limit := by
    rw [hlength]
    exact Nat.lt_of_le_of_lt (Nat.min_le_right _ _) hcols
  rw [pruneRow, hrow, slice, if_pos hfit, ok_bind, threshold_ok hdrop hword, matrixRow,
    Nat.succ_mul]
  rfl

/-- The pruning with all size operations checked. -/
theorem prune_eq (level : Percentile) (weights : Array α) {rows cols : Nat}
    (hrows : rows < Size.limit) (hcols : cols < Size.limit) :
    prune level weights rows cols = level.prune weights rows cols := by
  rw [prune, Offset.eval_product (Offset.eval_size hrows) (Offset.eval_size hcols),
    Percentile.prune]
  apply fault_bind_congr
  intro length hlength
  rcases Size.of_checked hlength with ⟨hlimit, rfl⟩
  by_cases hsize : weights.size = rows * cols
  · have hkept : keptRows level weights rows cols =
        .ok ((List.range rows).map fun r => level.pruneRow (matrixRow weights cols r)) := by
      apply mapM_ok
      intro r hr
      exact pruneRow_ok level hrows hcols hsize hlimit (List.mem_range.mp hr)
    rw [hkept]
    rfl
  · rw [if_pos hsize, if_pos hsize]
    rfl

end

end Word
end ConvSweep
