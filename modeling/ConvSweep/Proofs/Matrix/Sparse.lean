import Mathlib
import ConvSweep.Matrix.Prune
import ConvSweep.Matrix.Sparse
import ConvSweep.Proofs.Matrix.Csr
import ConvSweep.Proofs.Matrix.Dense

/-!
# Pruning and the sparse multiply

Pruning keeps the entries of a row that exceed the threshold of the row and
nothing else, so a pruned matrix stores the weight in the kept places.  The sparse
multiply adds, for every element, the products of the kept entries in ascending
order, from zero.  Where nothing is dropped these are all products of the row.
-/

namespace ConvSweep

open BufferM Loop

variable {α : Type}

/-!
## Kept entries
-/

/-- Row `r` of a row-major buffer. -/
def matrixRow (weights : Array α) (cols r : Nat) : List α :=
  (weights.extract (r * cols) ((r + 1) * cols)).toList

theorem length_matrixRow {weights : Array α} {rows cols r : Nat}
    (hsize : weights.size = rows * cols) (hr : r < rows) :
    (matrixRow weights cols r).length = cols := by
  have hend := mul_add_le cols hr
  rw [matrixRow, Array.length_toList, Array.size_extract, Nat.succ_mul, hsize]
  omega

section

variable [PruningOrder α]

/-- Whether an entry exceeds a threshold; every entry does if there is none. -/
def survives (limit : Option α) (x : α) : Bool :=
  match limit with
  | some t => PruningOrder.exceeds x t
  | none => true

theorem keptEntries_map_range (limit : Option α) (length : Nat) (u : Nat → α) :
    keptEntries limit ((List.range length).map u) =
      ((List.range length).filter fun c => survives limit (u c)).map fun c => (c, u c) := by
  have hplaces : ((List.range length).map u).zipIdx =
      (List.range length).map fun c => (u c, c) := by
    rw [List.zipIdx_eq_zip_range', List.length_map, List.length_range, ← List.range_eq_range',
      List.map_prod_right_eq_zip]
  rw [keptEntries, hplaces, List.filter_map, List.map_map]
  rfl

namespace Percentile

/-- Whether the entry in row `r` and column `c` of a matrix survives the pruning. -/
def keeps (p : Percentile) (cols : Nat) (A : Nat → Nat → α) (r c : Nat) : Bool :=
  survives (p.threshold ((List.range cols).map (A r))) (A r c)

omit [PruningOrder α] in
/-- Nothing is dropped at a percentage of zero. -/
theorem dropCount_zero {p : Percentile} (h : p.value.toRat = 0) (length : Nat) :
    p.dropCount length = 0 := by
  have hrounded : rounded 0 = 0 := by
    rw [rounded, Rounding.significant, if_pos (le_refl 0)]
  have hnearest : Rounding.nearestUp 0 = 0 := by
    rw [Rounding.nearestUp, Rat.floor_def]
    norm_num
  have hceil : (0 : Rat).ceil = 0 := rfl
  simp [dropCount, h, hrounded, hnearest, hceil]

theorem dropCount_le (p : Percentile) (length : Nat) : p.dropCount length ≤ length :=
  Nat.min_le_right _ _

/-- A row that drops nothing keeps everything. -/
theorem keeps_of_dropCount {p : Percentile} {cols : Nat} (h : p.dropCount cols = 0)
    (A : Nat → Nat → α) (r c : Nat) : p.keeps cols A r c = true := by
  rw [keeps, threshold, List.length_map, List.length_range, h, ConvSweep.threshold, if_pos rfl]
  rfl

/-- Whether an entry is kept depends on the entries of its row. -/
theorem keeps_congr (p : Percentile) {cols r r' : Nat} {A B : Nat → Nat → α}
    (h : ∀ i < cols, A r i = B r' i) {c : Nat} (hc : c < cols) :
    p.keeps cols A r c = p.keeps cols B r' c := by
  have hrow : (List.range cols).map (A r) = (List.range cols).map (B r') := by
    apply List.map_congr_left
    intro i hi
    exact h i (List.mem_range.mp hi)
  rw [keeps, keeps, hrow, h c hc]

theorem prune_ok (p : Percentile) {weights : Array α} {rows cols : Nat} {A : Nat → Nat → α}
    (hA : HoldsRows weights rows cols A) (hsize : weights.size < Size.limit)
    (hrows : rows < offsetLimit) :
    ∃ a, p.prune weights rows cols = .ok a ∧ a.Stores rows cols (p.keeps cols A) A := by
  refine ⟨_, ?_, CsrMatrix.stores_ofRows rows cols (p.keeps cols A) A⟩
  have hfits : rows * cols < Size.limit := by
    rw [← hA.size_eq]
    exact hsize
  have hcapacity : (Fault.capacity).check (rows < offsetLimit) = .ok () := check_of _ hrows
  have hrow : ∀ r < rows, p.pruneRow (weights.extract (r * cols) ((r + 1) * cols)).toList =
      ((List.range cols).filter (p.keeps cols A r)).map fun c => (c, A r c) := by
    intro r hr
    rw [hA.extract_row hr, toList_tabulate, pruneRow, keptEntries_map_range]
    rfl
  rw [prune, Size.checked_of_lt hfits, fault_ok_bind, if_neg (not_not.mpr hA.size_eq), hcapacity,
    fault_ok_bind]
  show Except.ok _ = Except.ok _
  congr 2
  apply List.map_congr_left
  intro r hr
  exact hrow r (List.mem_range.mp hr)

theorem of_prune {p : Percentile} {weights : Array α} {rows cols : Nat} {a : CsrMatrix α}
    (h : p.prune weights rows cols = .ok a) :
    weights.size = rows * cols ∧ rows * cols < Size.limit ∧ rows < offsetLimit := by
  rw [prune] at h
  rcases fault_step h with ⟨length, hlength, h⟩
  rcases Size.of_checked hlength with ⟨hsize, hEq⟩
  by_cases hne : weights.size ≠ length
  · rw [if_pos hne] at h
    cases h
  · rw [if_neg hne] at h
    rcases fault_step h with ⟨_, hrows, _⟩
    exact ⟨(not_not.mp hne).trans hEq, hsize, of_check hrows⟩

/-- Pruning lists the kept entries of every row. -/
theorem eq_of_prune {p : Percentile} {weights : Array α} {rows cols : Nat} {a : CsrMatrix α}
    (h : p.prune weights rows cols = .ok a) :
    a = CsrMatrix.ofRows cols
      ((List.range rows).map fun r => p.pruneRow (matrixRow weights cols r)) := by
  rw [prune] at h
  rcases fault_step h with ⟨length, _, h⟩
  split at h
  · cases h
  · rcases fault_step h with ⟨_, _, h⟩
    cases h
    rfl

/-- What a successful pruning stores. -/
theorem stores_of_prune {p : Percentile} {weights : Array α} {rows cols : Nat}
    {A : Nat → Nat → α} {a : CsrMatrix α} (hA : HoldsRows weights rows cols A)
    (h : p.prune weights rows cols = .ok a) : a.Stores rows cols (p.keeps cols A) A := by
  rcases of_prune h with ⟨hsize, hlimit, hrows⟩
  rw [← hsize] at hlimit
  rcases p.prune_ok hA hlimit hrows with ⟨a', ha', hstores⟩
  rw [h] at ha'
  cases ha'
  exact hstores

/-- A weight that was pruned at one percentage can be pruned at every other. -/
theorem prune_again {p : Percentile} {weights : Array α} {rows cols : Nat} {A : Nat → Nat → α}
    {a : CsrMatrix α} (hA : HoldsRows weights rows cols A) (h : p.prune weights rows cols = .ok a)
    (q : Percentile) : ∃ b, q.prune weights rows cols = .ok b := by
  rcases of_prune h with ⟨hsize, hlimit, hrows⟩
  rw [← hsize] at hlimit
  rcases q.prune_ok hA hlimit hrows with ⟨b, hb, _⟩
  exact ⟨b, hb⟩

end Percentile

end

/-!
## The multiply
-/

/-- `0 + 1 * u c * v c + …` over the kept places `c` below `length`. -/
def keptProduct [Zero α] [One α] [Add α] [Mul α] (length : Nat) (keep : Nat → Bool)
    (u v : Nat → α) : α :=
  (List.range length).foldl (fun acc c => if keep c then acc + 1 * u c * v c else acc) 0

theorem keptProduct_congr [Zero α] [One α] [Add α] [Mul α] {length : Nat} {keep keep' : Nat → Bool}
    {u u' v v' : Nat → α} (hkeep : ∀ i < length, keep i = keep' i) (hu : ∀ i < length, u i = u' i)
    (hv : ∀ i < length, v i = v' i) :
    keptProduct length keep u v = keptProduct length keep' u' v' := by
  apply foldl_range_congr
  intro i hi acc
  rw [hkeep i hi, hu i hi, hv i hi]

namespace SparseMultiply

/-- What the multiply asks for: its numbers fit the word, and the buffers hold the matrices. -/
structure Reaches (mul : SparseMultiply α) (len : Nat) : Prop where
  gap : mul.n ≤ mul.ldc
  target_lt : (mul.a.rows - 1) * mul.ldc + mul.n < Size.limit
  target : (mul.a.rows - 1) * mul.ldc + mul.n ≤ len
  right_gap : mul.n ≤ mul.ldb
  right_lt : 0 < mul.a.cols → (mul.a.cols - 1) * mul.ldb + mul.n < Size.limit
  right : 0 < mul.a.cols → (mul.a.cols - 1) * mul.ldb + mul.n ≤ mul.b.size

theorem check_ok_iff {mul : SparseMultiply α} {len : Nat} :
    mul.check len = .ok () ↔ mul.Reaches len := by
  constructor
  · intro h
    rw [check] at h
    rcases bind_eq_ok h with ⟨_, hgap, h⟩
    rcases bind_eq_ok h with ⟨least, hleast, h⟩
    rcases bind_eq_ok h with ⟨_, htarget, h⟩
    rcases bind_eq_ok h with ⟨_, hright, h⟩
    rcases Size.of_checked hleast with ⟨hlt, hEq⟩
    have hcols : 0 < mul.a.cols → (mul.a.cols - 1) * mul.ldb + mul.n < Size.limit ∧
        (mul.a.cols - 1) * mul.ldb + mul.n ≤ mul.b.size := by
      intro hpos
      rw [if_pos (Nat.ne_of_gt hpos)] at h
      rcases bind_eq_ok h with ⟨last, hlast, h⟩
      rcases Size.of_checked hlast with ⟨hlt', hEq'⟩
      constructor
      · exact hlt'
      · rw [← hEq']
        exact of_check h
    exact
      { gap := of_check hgap
        target_lt := hlt
        target := hEq ▸ of_check htarget
        right_gap := of_check hright
        right_lt := fun hpos => (hcols hpos).1
        right := fun hpos => (hcols hpos).2 }
  · intro h
    rw [check, check_bind h.gap, Size.checked_bind h.target_lt, check_bind h.target,
      check_bind h.right_gap]
    rcases Nat.eq_zero_or_pos mul.a.cols with hcols | hcols
    · rw [if_neg (not_not.mpr hcols)]
      rfl
    · rw [if_pos (Nat.ne_of_gt hcols), Size.checked_bind (h.right_lt hcols)]
      exact check_of _ (h.right hcols)

variable [Zero α] [One α] [Add α] [Mul α] [BEq α]

/-- The element in row `r` and column `j` of the result, from the old element. -/
def element (mul : SparseMultiply α) (keep : Nat → Nat → Bool) (A : Nat → Nat → α) (r j : Nat)
    (old : α) : α :=
  (List.range mul.a.cols).foldl (fun acc c =>
    if keep r c then acc + mul.alpha * A r c * mul.b.getD (c * mul.ldb + j) 0 else acc)
    (scaled mul.beta old)

section

variable {mul : SparseMultiply α} {len : Nat} {keep : Nat → Nat → Bool} {A : Nat → Nat → α}
  (ha : mul.a.Stores mul.a.rows mul.a.cols keep A) (hr : mul.Reaches len)
include ha hr

theorem acts_row {r : Nat} (hrow : r < mul.a.rows) :
    Acts (mul.row r : BufferM α mul.n Unit) (mul.element keep A r) := by
  have hadd : ∀ entry ∈ ((List.range mul.a.cols).filter (keep r)).map fun c => (c, A r c),
      Acts (do
        let line ← slice mul.b (entry.1 * mul.ldb) mul.n
        addScaled (mul.alpha * entry.2) line : BufferM α mul.n Unit)
        (fun j y => y + mul.alpha * entry.2 * mul.b.getD (entry.1 * mul.ldb + j) 0) := by
    intro entry hentry
    -- a stored column names a row of `B`
    rcases List.mem_map.mp hentry with ⟨c, hc, hEq⟩
    have hc := List.mem_range.mp (List.mem_filter.mp hc).1
    have hfit := row_end_le (hr.right (Nat.zero_lt_of_lt hc)) hc
    rw [← hEq]
    dsimp only
    rw [lift_bind (slice_ok hfit 0)]
    apply acts_addScaled
    · rw [size_tabulate]
    · intro j hj
      rw [getElem_tabulate]
  unfold row
  rw [lift_bind (ha.entries_eq r hrow)]
  apply (Acts.bind (acts_scale mul.beta) (acts_forM hadd)).congr
  intro j _ old
  rw [List.foldl_map, List.foldl_filter]
  rfl

/-- The multiply ends without a fault and acts on the elements of `C` alone. -/
theorem acts_run (schedule : Schedule) (hm : 0 < mul.a.rows) (hn : 0 < mul.n) :
    Acts (run schedule mul : BufferM α len Unit)
      (inRows mul.a.rows mul.ldc mul.n (mul.element keep A)) := by
  have hpos : ¬ (mul.a.rows = 0 ∨ mul.n = 0) := by
    rintro (h | h)
    · exact Nat.ne_of_gt hm h
    · exact Nat.ne_of_gt hn h
  unfold run
  rw [if_neg hpos, lift_bind (check_ok_iff.mpr hr)]
  exact acts_onSlice_inRows hr.target
    (acts_chunksOrRows hr.gap schedule hm hn fun r hrow => acts_row ha hr hrow)

end

/-- An empty `C` is left alone, whatever the other sizes are. -/
theorem run_empty {mul : SparseMultiply α} {len : Nat} (schedule : Schedule)
    (h : mul.a.rows = 0 ∨ mul.n = 0) (v : Vector α len) : run schedule mul v = .ok () v := by
  rw [run, if_pos h]
  rfl

/-- A broken contract stops the multiply before anything is written. -/
theorem run_of_check {mul : SparseMultiply α} {len : Nat} (schedule : Schedule) {fault : Fault}
    (hm : 0 < mul.a.rows) (hn : 0 < mul.n) (h : mul.check len = .error fault)
    (v : Vector α len) : run schedule mul v = .error fault v := by
  have hpos : ¬ (mul.a.rows = 0 ∨ mul.n = 0) := by
    rintro (h | h)
    · exact Nat.ne_of_gt hm h
    · exact Nat.ne_of_gt hn h
  rw [run, if_neg hpos, h]
  rfl

/-!
## A cleared `C` without gaps
-/

/-- `A * B` with `n` columns, into a buffer without gaps. -/
def ofRows (n : Nat) (a : CsrMatrix α) (b : Array α) : SparseMultiply α where
  alpha := 1
  a := a
  b := b
  ldb := n
  n := n
  beta := 0
  ldc := n

variable {m n k : Nat} {a : CsrMatrix α} {b : Array α} {keep : Nat → Nat → Bool}
  {A B : Nat → Nat → α}

omit [Add α] [Mul α] [BEq α] in
theorem reaches_ofRows (hm : 0 < m) (ha : a.Stores m k keep A) (hb : HoldsRows b k n B)
    (hblimit : b.size < Size.limit) (hlimit : m * n < Size.limit) :
    (ofRows n a b).Reaches (m * n) := by
  have hrows := ha.rows_eq
  have hcols := ha.cols_eq
  subst hrows hcols
  have hlast : (a.rows - 1) * n + n ≤ a.rows * n := last_row_le hm (Nat.le_refl n)
  have hright : 0 < a.cols → (a.cols - 1) * n + n ≤ b.size := by
    intro hk
    rw [hb.size_eq]
    exact last_row_le hk (Nat.le_refl n)
  exact
    { gap := Nat.le_refl n
      target_lt := Nat.lt_of_le_of_lt hlast hlimit
      target := hlast
      right_gap := Nat.le_refl n
      right_lt := fun hk => Nat.lt_of_le_of_lt (hright hk) hblimit
      right := hright }

/-- The multiply with a sparse matrix, for every schedule. -/
theorem fills_run [ZeroTest α] (schedule : Schedule) (hm : 0 < m) (hn : 0 < n)
    (ha : a.Stores m k keep A) (hb : HoldsRows b k n B) (hblimit : b.size < Size.limit)
    (hlimit : m * n < Size.limit) :
    Fills (run schedule (ofRows n a b) : BufferM α (m * n) Unit)
      (fun c => keptProduct k (keep (c / n)) (A (c / n)) fun i => B i (c % n)) := by
  have hreach := reaches_ofRows hm ha hb hblimit hlimit
  have hrows := ha.rows_eq
  have hcols := ha.cols_eq
  subst hrows hcols
  have hstores : (ofRows n a b).a.Stores (ofRows n a b).a.rows (ofRows n a b).a.cols keep A := ha
  apply (acts_run hstores hreach schedule hm hn).congr
  intro c hc old
  have hrow : c / n < a.rows := div_lt_of_lt_mul hc
  have hcol : c % n < n := mod_lt_of_lt_mul hc
  have hin : c / (ofRows n a b).ldc < (ofRows n a b).a.rows ∧
      c % (ofRows n a b).ldc < (ofRows n a b).n := ⟨hrow, hcol⟩
  have hzero : ((ofRows n a b).beta == 0) = true := ZeroTest.zero_beq_zero
  rw [inRows, if_pos hin, element, scaled, if_pos hzero]
  apply foldl_range_congr
  intro p hp acc
  have hright : b.getD (p * n + c % n) 0 = B p (c % n) :=
    getD_of_getElem? (hb.getElem?_eq p hp _ hcol) 0
  show (if keep (c / n) p then acc + 1 * A (c / n) p * b.getD (p * n + c % n) 0 else acc) = _
  rw [hright]

end SparseMultiply
end ConvSweep
