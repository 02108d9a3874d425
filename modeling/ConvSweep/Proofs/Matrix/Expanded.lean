import Mathlib
import ConvSweep.Proofs.Binary32
import ConvSweep.Proofs.Matrix.Product

/-!
# Sparse products as dense products

A sparse matrix that was accepted or pruned has a dense form, with zeros in the
places that it does not store.  The sparse multiply either stops before it writes
anything or ends; when it ends, the dense multiply of the dense form ends too and
leaves the same elements.  Over a ring a product with a zero adds nothing.  In
single precision this holds as long as `C` is cleared and no product with a zero is
a NaN, which a finite right matrix ensures.
-/

namespace ConvSweep

open BufferM Loop

variable {α : Type}

namespace CsrMatrix

/-!
## Matrices that can be built
-/

/-- A matrix that was put together from accepted parts or pruned from a buffer. -/
inductive Built [PruningOrder α] (a : CsrMatrix α) : Prop
  | parts {rows cols : Nat} {rowStart rowEnd columns : Array Nat} {values : Array α}
      (h : ofParts rows cols rowStart rowEnd columns values = .ok a)
  | sparsified {p : Percentile} {weights : Array α} {rows cols : Nat}
      (h : p.prune weights rows cols = .ok a)
  | pruned {weights : Array α} {rows cols : Nat} {percentile : Binary32}
      (h : prune weights rows cols percentile = .ok a)

theorem stores_of_sparsified [PruningOrder α] [Zero α] {p : Percentile} {weights : Array α}
    {rows cols : Nat} {a : CsrMatrix α} (h : p.prune weights rows cols = .ok a) :
    ∃ keep A, a.Stores a.rows a.cols keep A := by
  have hstores := Percentile.stores_of_prune (holdsRows_self (Percentile.of_prune h).1) h
  have hrows := hstores.rows_eq
  have hcols := hstores.cols_eq
  subst hrows hcols
  exact ⟨_, _, hstores⟩

theorem Built.stores [PruningOrder α] [Zero α] {a : CsrMatrix α} (h : a.Built) :
    ∃ keep A, a.Stores a.rows a.cols keep A := by
  cases h with
  | parts h =>
      exact (accepted_of_ofParts h).1.stores
  | sparsified h =>
      exact stores_of_sparsified h
  | pruned h =>
      rcases error_step h with ⟨p, _, h⟩
      exact stores_of_sparsified h

end CsrMatrix

/-- The two buffers agree on `rows` rows of `n` elements, `stride` places apart. -/
def SameRows (rows n stride : Nat) {len : Nat} (v w : Vector α len) : Prop :=
  ∀ r < rows, ∀ j < n, ∃ h : r * stride + j < len, v[r * stride + j] = w[r * stride + j]

/-- Two buffers agree on their rows where the effects on the rows agree; there need not be any. -/
theorem sameRows_mapIdx {rows n stride len : Nat} {g g' : Nat → Nat → α → α}
    (hfit : 0 < rows → 0 < n → n ≤ stride ∧ (rows - 1) * stride + n ≤ len) {v w : Vector α len}
    (h : ∀ r < rows, ∀ j < n, ∀ q (hq : q < len), g r j v[q] = g' r j w[q]) :
    SameRows rows n stride (v.mapIdx (inRows rows stride n g))
      (w.mapIdx (inRows rows stride n g')) := by
  intro r hr j hj
  rcases hfit (Nat.zero_lt_of_lt hr) (Nat.zero_lt_of_lt hj) with ⟨hgap, hlast⟩
  have hplace := row_place_lt hlast hr hj
  refine ⟨hplace, ?_⟩
  rw [Vector.getElem_mapIdx, Vector.getElem_mapIdx, inRows_of_lt hgap hr hj,
    inRows_of_lt hgap hr hj]
  exact h r hr j hj _ hplace

namespace SparseMultiply

/-- The multiply with the dense form of the matrix. -/
def expanded (mul : SparseMultiply α) (dense : Array α) : DenseMultiply α where
  m := mul.a.rows
  n := mul.n
  k := mul.a.cols
  alpha := mul.alpha
  a := ⟨dense, mul.a.cols, false⟩
  b := ⟨mul.b, mul.ldb, false⟩
  beta := mul.beta
  ldc := mul.ldc

variable {mul : SparseMultiply α} {len : Nat} {keep : Nat → Nat → Bool} {A : Nat → Nat → α}

/-!
## Runs of the sparse multiply
-/

section

variable [Zero α] [One α] [Add α] [Mul α] [BEq α]

/-- The multiply stops at its contract or not at all. -/
theorem run_cases (ha : mul.a.Stores mul.a.rows mul.a.cols keep A) (schedule : Schedule)
    (v : Vector α len) :
    (∃ fault, mul.check len = .error fault ∧ run schedule mul v = .error fault v) ∨
      (run schedule mul v = .ok ()
          (v.mapIdx (inRows mul.a.rows mul.ldc mul.n (mul.element keep A))) ∧
        (0 < mul.a.rows → 0 < mul.n → mul.Reaches len)) := by
  by_cases hempty : mul.a.rows = 0 ∨ mul.n = 0
  · right
    constructor
    · rw [run_empty schedule hempty, mapIdx_inRows_empty hempty]
    · intro hm hn
      rcases hempty with hzero | hzero
      · exact absurd hzero (Nat.ne_of_gt hm)
      · exact absurd hzero (Nat.ne_of_gt hn)
  · have hm : 0 < mul.a.rows := Nat.pos_of_ne_zero fun h => hempty (Or.inl h)
    have hn : 0 < mul.n := Nat.pos_of_ne_zero fun h => hempty (Or.inr h)
    cases hcheck : mul.check len with
    | error fault =>
        left
        exact ⟨fault, rfl, run_of_check schedule hm hn hcheck v⟩
    | ok u =>
        right
        have hr := check_ok_iff.mp hcheck
        exact ⟨acts_run ha hr schedule hm hn v, fun _ _ => hr⟩

theorem run_ended (ha : mul.a.Stores mul.a.rows mul.a.cols keep A) {schedule : Schedule}
    {v w : Vector α len} (h : run schedule mul v = .ok () w) :
    w = v.mapIdx (inRows mul.a.rows mul.ldc mul.n (mul.element keep A)) ∧
      (0 < mul.a.rows → 0 < mul.n → mul.Reaches len) := by
  rcases run_cases ha schedule v with ⟨fault, _, hrun⟩ | ⟨hrun, hr⟩
  · rw [hrun] at h
    cases h
  · rw [hrun] at h
    exact ⟨(EStateM.Result.ok.inj h).2.symm, hr⟩

end

/-!
## Runs of the dense multiply
-/

section

variable {dense : Array α} (hsizes : Word.SparseSizes mul) (hlen : len < Size.bufferLimit)
  (hright : mul.b.size < Size.bufferLimit) (hdense : dense.size = mul.a.rows * mul.a.cols)
  (hdense_lt : dense.size < Size.bufferLimit)
include hsizes hlen hright hdense hdense_lt

/-- A contract that holds for the sparse matrix holds for its dense form. -/
theorem expanded_fits (hm : 0 < mul.a.rows) (hn : 0 < mul.n) (hr : mul.Reaches len) :
    (mul.expanded dense).Fits len := by
  have hn_lt : mul.n < Size.bufferLimit :=
    Nat.lt_of_le_of_lt (Nat.le_trans (Nat.le_add_left _ _) hr.target) hlen
  have hrows : mul.a.rows ≤ (mul.a.rows - 1) * mul.ldc + mul.n := by
    have hstep := Nat.le_mul_of_pos_right (mul.a.rows - 1) (Nat.lt_of_lt_of_le hn hr.gap)
    omega
  have hcols : mul.a.cols ≤ dense.size := by
    rw [hdense]
    exact Nat.le_mul_of_pos_left _ hm
  have hreaches : (mul.expanded dense).Reaches len :=
    { target := hr.target
      left := fun _ => by
        rw [Operand.extent]
        show (mul.a.rows - 1) * mul.a.cols + mul.a.cols ≤ dense.size
        rw [hdense]
        exact last_row_le hm (Nat.le_refl _)
      right := fun hk => hr.right hk }
  exact
    { m_lt := Nat.lt_of_le_of_lt (Nat.le_trans hrows hr.target) hlen
      n_lt := hn_lt
      k_lt := Nat.lt_of_le_of_lt hcols hdense_lt
      left_stride_lt := hsizes.cols_lt
      right_stride_lt := hsizes.ldb_lt
      ldc_lt := hsizes.ldc_lt
      gap := hr.gap
      len_lt := hlen
      left_size_lt := hdense_lt
      right_size_lt := hright
      reaches := fun _ _ => hreaches }

variable [Zero α] [One α] [Add α] [Mul α] [BEq α]

theorem expanded_run (hr : 0 < mul.a.rows → 0 < mul.n → mul.Reaches len) (schedule : Schedule)
    {tile : Nat} (htile : tile < Size.limit) (v : Vector α len) :
    DenseMultiply.run schedule tile (mul.expanded dense) v = .ok ()
        (v.mapIdx (inRows mul.a.rows mul.ldc mul.n (mul.expanded dense).element)) ∧
      Word.runDense schedule tile (mul.expanded dense) v = .ok ()
        (v.mapIdx (inRows mul.a.rows mul.ldc mul.n (mul.expanded dense).element)) := by
  by_cases hempty : mul.a.rows = 0 ∨ mul.n = 0
  · have hempty' : (mul.expanded dense).m = 0 ∨ (mul.expanded dense).n = 0 := hempty
    rw [mapIdx_inRows_empty hempty]
    constructor
    · exact DenseMultiply.run_empty schedule tile hempty' v
    · rw [Word.runDense, if_pos hempty']
      rfl
  · have hm : 0 < mul.a.rows := Nat.pos_of_ne_zero fun h => hempty (Or.inl h)
    have hn : 0 < mul.n := Nat.pos_of_ne_zero fun h => hempty (Or.inr h)
    have hfits := expanded_fits hsizes hlen hright hdense hdense_lt hm hn (hr hm hn)
    exact ⟨hfits.run_ok schedule v, hfits.checked_run_ok schedule htile v⟩

end

/-!
## Elements
-/

section

variable [Zero α] [One α] [Add α] [Mul α] [BEq α]

/-- The dense form multiplies the places that are not stored with zero. -/
theorem expanded_element {dense : Array α}
    (hdense : HoldsRows dense mul.a.rows mul.a.cols (CsrMatrix.masked keep A)) {r : Nat}
    (hr : r < mul.a.rows) (j : Nat) (old : α) :
    (mul.expanded dense).element r j old =
      (List.range mul.a.cols).foldl (fun acc c =>
        acc + mul.alpha * CsrMatrix.masked keep A r c * mul.b.getD (c * mul.ldb + j) 0)
        (scaled mul.beta old) := by
  have hplain : (mul.expanded dense).b.transposed = false := rfl
  rw [DenseMultiply.element, hplain, if_neg Bool.false_ne_true]
  by_cases hk : (mul.expanded dense).k = 0
  · have hcols : mul.a.cols = 0 := hk
    rw [if_pos hk, hcols]
    rfl
  · rw [if_neg hk]
    apply foldl_range_congr
    intro c hc acc
    have hentry : dense.getD (r * mul.a.cols + c) 0 = CsrMatrix.masked keep A r c :=
      getD_of_getElem? (hdense.getElem?_eq r hr c hc) 0
    rw [← hentry]
    rfl

end

theorem element_eq_expanded {R : Type} [CommRing R] [BEq R] [LawfulBEq R]
    {mul : SparseMultiply R} {keep : Nat → Nat → Bool} {A : Nat → Nat → R} {dense : Array R}
    (hdense : HoldsRows dense mul.a.rows mul.a.cols (CsrMatrix.masked keep A)) {r : Nat}
    (hr : r < mul.a.rows) (j : Nat) (old : R) :
    mul.element keep A r j old = (mul.expanded dense).element r j old := by
  rw [expanded_element hdense hr, element]
  apply foldl_range_congr
  intro c _ acc
  rw [CsrMatrix.masked]
  by_cases hkeep : keep r c = true
  · rw [if_pos hkeep, if_pos hkeep]
  · rw [if_neg hkeep, if_neg hkeep, mul_zero, zero_mul, add_zero]

/-- A sum from zero does not change when a product with a zero is added to it. -/
theorem element_eq_expanded_of_finite {mul : SparseMultiply Binary32} {keep : Nat → Nat → Bool}
    {A : Nat → Nat → Binary32} {dense : Array Binary32}
    (hdense : HoldsRows dense mul.a.rows mul.a.cols (CsrMatrix.masked keep A))
    (hbeta : (mul.beta == 0) = true) (halpha : mul.alpha.isFinite = true)
    (hb : ∀ x ∈ mul.b, x.isFinite = true) {r : Nat} (hr : r < mul.a.rows) (j : Nat)
    (old old' : Binary32) :
    mul.element keep A r j old = (mul.expanded dense).element r j old' := by
  have hfinite : ∀ i, (mul.b.getD i 0).isFinite = true := by
    intro i
    by_cases hi : i < mul.b.size
    · rw [Array.getD, dif_pos hi]
      exact hb _ (Array.getElem_mem hi)
    · rw [Array.getD, dif_neg hi]
      rfl
  rw [expanded_element hdense hr, element, scaled, if_pos hbeta, scaled, if_pos hbeta]
  refine (foldl_range_invariant Binary32.isSum_zero ?_).1
  intro c _ acc hacc
  constructor
  · rw [CsrMatrix.masked]
    by_cases hkeep : keep r c = true
    · rw [if_pos hkeep, if_pos hkeep]
    · have hzero : Binary32.IsZero (mul.alpha * 0 * mul.b.getD (c * mul.ldb + j) 0) := by
        rw [Binary32.mul_comm]
        exact (Binary32.isZero_mul_zero halpha).mul (hfinite _)
      rw [if_neg hkeep, if_neg hkeep, hacc.add_zero hzero]
  · exact hacc.add _

/-!
## The same product
-/

/-- The elements that a sparse multiply leaves when it ends, and those that the dense multiply of
the dense form leaves in any other buffer of the same length. -/
theorem expanded_of_run [Zero α] [One α] [Add α] [Mul α] [BEq α] [PruningOrder α]
    {dense : Array α} {schedule : Schedule} {v w : Vector α len} (hbuilt : mul.a.Built)
    (hsizes : Word.SparseSizes mul) (hlen : len < Size.bufferLimit)
    (hright : mul.b.size < Size.bufferLimit) (hrun : run schedule mul v = .ok () w)
    (hdense : mul.a.toDense = .ok dense) (denseSchedule : Schedule) {tile : Nat}
    (htile : tile < Size.limit) (v' : Vector α len) :
    ∃ keep A w', HoldsRows dense mul.a.rows mul.a.cols (CsrMatrix.masked keep A) ∧
      DenseMultiply.run denseSchedule tile (mul.expanded dense) v' = .ok () w' ∧
      Word.runDense denseSchedule tile (mul.expanded dense) v' = .ok () w' ∧
      ((∀ r < mul.a.rows, ∀ j < mul.n, ∀ q (hq : q < len),
          mul.element keep A r j v[q] = (mul.expanded dense).element r j v'[q]) →
        SameRows mul.a.rows mul.n mul.ldc w w') := by
  rcases hbuilt.stores with ⟨keep, A, ha⟩
  rcases run_ended ha hrun with ⟨hw, hr⟩
  have hrows := CsrMatrix.of_toDense ha hdense
  have hdense_lt := CsrMatrix.lt_of_toDense hdense
  rw [← hrows.size_eq] at hdense_lt
  have hexpanded := expanded_run hsizes hlen hright hrows.size_eq hdense_lt hr denseSchedule
    htile v'
  refine ⟨keep, A, _, hrows, hexpanded.1, hexpanded.2, ?_⟩
  intro hsame
  rw [hw]
  exact sameRows_mapIdx (fun hm hn => ⟨(hr hm hn).gap, (hr hm hn).target⟩) hsame

/-- The sparse multiply stops at its contract, with the buffer as it was, or ends and touches the
elements of `C` only.  Then the dense multiply of the dense form leaves the same elements: over a
ring, and in single precision for a cleared `C` and finite factors, whatever both buffers held. -/
theorem run_eq_expanded (schedule denseSchedule : Schedule) (tile : Nat)
    (htile : tile < Size.limit) :
    (∀ {F : Type} [Zero F] [One F] [Add F] [Mul F] [BEq F] [PruningOrder F]
      (mul : SparseMultiply F) {len : Nat} (v : Vector F len), mul.a.Built →
        Word.SparseSizes mul →
          ((∃ fault, mul.check len = .error fault ∧ run schedule mul v = .error fault v ∧
              Word.runSparse schedule mul v = .error fault v) ∨
            ∃ w, run schedule mul v = .ok () w ∧ Word.runSparse schedule mul v = .ok () w ∧
              ∀ q (hq : q < len), (∀ r < mul.a.rows, ∀ j < mul.n, q ≠ r * mul.ldc + j) →
                w[q] = v[q]) ∧
          (mul.a.rows * mul.a.cols < Size.bufferLimit → ∃ dense, mul.a.toDense = .ok dense)) ∧
    (∀ {R : Type} [CommRing R] [BEq R] [LawfulBEq R] [PruningOrder R]
      (mul : SparseMultiply R) {len : Nat} (v w : Vector R len) (dense : Array R),
        mul.a.Built → Word.SparseSizes mul → len < Size.bufferLimit →
        mul.b.size < Size.bufferLimit → run schedule mul v = .ok () w →
        mul.a.toDense = .ok dense →
          ∃ w', DenseMultiply.run denseSchedule tile (mul.expanded dense) v = .ok () w' ∧
            Word.runDense denseSchedule tile (mul.expanded dense) v = .ok () w' ∧
            SameRows mul.a.rows mul.n mul.ldc w w') ∧
    (∀ (mul : SparseMultiply Binary32) {len : Nat} (v v' w : Vector Binary32 len)
      (dense : Array Binary32), mul.a.Built → Word.SparseSizes mul → len < Size.bufferLimit →
        mul.b.size < Size.bufferLimit → run schedule mul v = .ok () w →
        mul.a.toDense = .ok dense → (mul.beta == 0) = true → mul.alpha.isFinite = true →
        (∀ x ∈ mul.b, x.isFinite = true) →
          ∃ w', DenseMultiply.run denseSchedule tile (mul.expanded dense) v' = .ok () w' ∧
            Word.runDense denseSchedule tile (mul.expanded dense) v' = .ok () w' ∧
            SameRows mul.a.rows mul.n mul.ldc w w') := by
  refine ⟨?_, ?_, ?_⟩
  · intro F _ _ _ _ _ _ mul len v hbuilt hsizes
    rcases hbuilt.stores with ⟨keep, A, ha⟩
    have hword : (Word.runSparse schedule mul : BufferM F len Unit) = run schedule mul :=
      Word.runSparse_eq hsizes ha schedule
    constructor
    · rcases run_cases ha schedule v with ⟨fault, hcheck, hrun⟩ | ⟨hrun, _⟩
      · left
        exact ⟨fault, hcheck, hrun, hword ▸ hrun⟩
      · right
        refine ⟨_, hrun, hword ▸ hrun, ?_⟩
        intro q hq hne
        rw [Vector.getElem_mapIdx, inRows_of_ne hne]
    · intro hlt
      rcases CsrMatrix.toDense_ok ha hlt with ⟨dense, hdense, _⟩
      exact ⟨dense, hdense⟩
  · intro R _ _ _ _ mul len v w dense hbuilt hsizes hlen hright hrun hdense
    rcases expanded_of_run hbuilt hsizes hlen hright hrun hdense denseSchedule htile v with
      ⟨keep, A, w', hrows, hrun', hchecked, hsame⟩
    refine ⟨w', hrun', hchecked, hsame ?_⟩
    intro r hrow j _ q _
    exact element_eq_expanded hrows hrow j _
  · intro mul len v v' w dense hbuilt hsizes hlen hright hrun hdense hbeta halpha hb
    rcases expanded_of_run hbuilt hsizes hlen hright hrun hdense denseSchedule htile v' with
      ⟨keep, A, w', hrows, hrun', hchecked, hsame⟩
    refine ⟨w', hrun', hchecked, hsame ?_⟩
    intro r hrow j _ q _
    exact element_eq_expanded_of_finite hrows hbeta halpha hb hrow j _ _

/-- Twice a `2 × 3` matrix that stores a single `3` in its corner, and an empty row, times a
`3 × 2` matrix of ones with a gap; `C` has a gap too. -/
def corner : SparseMultiply Binary32 where
  alpha := ⟨0x40000000⟩
  a := ⟨2, 3, #[0, 1], #[1, 1], #[2], #[⟨0x40400000⟩]⟩
  b := #[1, 1, 0, 1, 1, 0, 1, 1]
  ldb := 3
  n := 2
  beta := 0
  ldc := 3

theorem corner_built : corner.a.Built :=
  .parts (show CsrMatrix.ofParts 2 3 #[0, 1] #[1, 1] #[2] #[⟨0x40400000⟩] = .ok corner.a from rfl)

/-- NaNs in the one buffer and ones in the other do not show. -/
theorem corner_eq_expanded :
    ∃ dense w w', corner.a.toDense = .ok dense ∧
      run .serial corner (.replicate 5 ⟨0x7fc00000⟩) = .ok () w ∧
      DenseMultiply.run .serial 1 (corner.expanded dense) (.replicate 5 1) = .ok () w' ∧
      SameRows 2 2 3 w w' := by
  have hsizes : Word.SparseSizes corner :=
    { rows_lt := by decide
      cols_lt := by decide
      n_lt := by decide
      ldb_lt := by decide
      ldc_lt := by decide }
  rcases run_eq_expanded .serial .serial 1 (by decide) with ⟨hends, _, hsame⟩
  rcases hends corner (.replicate 5 ⟨0x7fc00000⟩) corner_built hsizes with ⟨hrun, hexists⟩
  rcases hexists (by decide) with ⟨dense, hdense⟩
  rcases hrun with ⟨fault, hcheck, _⟩ | ⟨w, hrun, _⟩
  · have hok : corner.check 5 = .ok () := rfl
    rw [hok] at hcheck
    cases hcheck
  · rcases hsame corner _ (.replicate 5 1) w dense corner_built hsizes (by decide) (by decide)
      hrun hdense rfl rfl (by decide) with ⟨w', hrun', _, hrows⟩
    exact ⟨dense, w, w', hdense, hrun, hrun', hrows⟩

end SparseMultiply
end ConvSweep
