import Mathlib
import ConvSweep.Proofs.Binary64
import ConvSweep.Proofs.Matrix.Percentile
import ConvSweep.Proofs.Matrix.Pruning

/-!
# A larger percentage keeps less

The drop count grows with the percentage, the threshold ranks higher with the drop
count, and in a row without NaNs what exceeds the higher threshold exceeds the lower
one.  So the entries that are kept at a larger percentage are among those that are
kept at a smaller one, and their number and density are not larger.
-/

namespace ConvSweep

open Rounding

/-!
## Rows
-/

namespace Binary32

/-- The two orders of the numbers agree but for the sign of a zero. -/
theorem place_le_of_rank_le {x y : Binary32} (h : x.rank ≤ y.rank) : x.place ≤ y.place := by
  have hx := rank_cases x
  have hy := rank_cases y
  omega

end Binary32

section

variable {row : List Binary32}

/-- What exceeds a threshold exceeds every smaller one. -/
theorem survives_of_le {d d' : Nat} (hnumbers : ∀ x ∈ row, x.isNaN = false) (hle : d ≤ d')
    (hlength : d' ≤ row.length) {x : Binary32} (h : survives (threshold d' row) x = true) :
    survives (threshold d row) x = true := by
  rcases Nat.eq_zero_or_pos d with rfl | hpos
  · rw [threshold_zero]
    rfl
  · rcases threshold_isSmallest hpos (Nat.le_trans hle hlength) with ⟨t, ht, hsmallest⟩
    rcases threshold_isSmallest (Nat.lt_of_lt_of_le hpos hle) hlength with
      ⟨t', ht', hsmallest'⟩
    rw [ht'] at h
    rw [ht]
    rcases Binary32.lt_iff.mp h with ⟨_, hx, hplace⟩
    have hrank := Binary32.place_le_of_rank_le (hsmallest.rank_le hsmallest' hle)
    exact Binary32.lt_iff.mpr ⟨hnumbers t hsmallest.mem, hx, Int.lt_of_le_of_lt hrank hplace⟩

theorem keptEntries_sublist_of_le {d d' : Nat} (hnumbers : ∀ x ∈ row, x.isNaN = false)
    (hle : d ≤ d') (hlength : d' ≤ row.length) :
    (keptEntries (threshold d' row) row).Sublist (keptEntries (threshold d row) row) := by
  apply List.Sublist.map
  apply List.monotone_filter_right
  rintro ⟨x, c⟩ hkeep
  exact survives_of_le hnumbers hle hlength hkeep

end

/-!
## Densities
-/

namespace CsrMatrix

variable {α : Type}

theorem count_ofRows (cols : Nat) (entries : List (List (Nat × α))) :
    (ofRows cols entries).count = (entries.map List.length).sum := by
  rw [count, ofRows, List.size_toArray, List.length_map, List.length_flatten]

open Binary64

/-- Among matrices of one shape a larger number of entries has the larger density, also where the
quotient is rounded. -/
theorem density_mono {a b : CsrMatrix α} (hrows : b.rows = a.rows) (hcols : b.cols = a.cols)
    (hcount : b.count ≤ a.count) (hlt : a.count < Size.limit) : b.density ≤ a.density := by
  have hword : ∀ n : Nat, Represents (UInt64.ofNat n).toFloat
      (significant 53 (UInt64.ofNat n).toNat) ∧
        Between 0 64 (significant 53 (UInt64.ofNat n).toNat) :=
    fun n => ⟨represents_ofUInt64 _, (between_word (UInt64.ofNat n).toNat_lt).significant⟩
  rcases hword a.rows with ⟨hrepresents, hbetween⟩
  rcases hword a.cols with ⟨hrepresents', hbetween'⟩
  have hproduct := hbetween.mul hbetween'
  have htotal := hrepresents.mul hrepresents' (hproduct.moderate (by decide) (by decide))
  rw [density, density, hrows, hcols]
  split
  · exact (represents_zero.le_iff represents_zero).mpr (le_refl 0)
  · rename_i hzero
    have hne := (htotal.beq_iff represents_zero).not.mp hzero
    have hquotient : ∀ n : Nat, Represents ((UInt64.ofNat n).toFloat /
        ((UInt64.ofNat a.rows).toFloat * (UInt64.ofNat a.cols).toFloat)) _ :=
      fun n => (hword n).1.div htotal hne
        (((hword n).2.div hproduct.significant hne).moderate (by decide) (by decide))
    apply ((hquotient b.count).le_iff (hquotient a.count)).mpr
    apply significant_mono (by decide)
    apply div_le_div_of_nonneg_right _ htotal.nonneg
    apply significant_mono (by decide)
    rw [UInt64.toNat_ofNat_of_lt' hlt, UInt64.toNat_ofNat_of_lt' (Nat.lt_of_le_of_lt hcount hlt)]
    exact Nat.cast_le.mpr hcount

/-- In every row `b` keeps a part of the entries that `a` keeps, with their columns and values. -/
structure KeepsPartOf (b a : CsrMatrix Binary32) : Prop where
  rows_eq : b.rows = a.rows
  cols_eq : b.cols = a.cols
  row : ∀ r < a.rows, ∃ more less, a.entries r = .ok more ∧ b.entries r = .ok less ∧
    less.Sublist more
  count_le : b.count ≤ a.count
  density_le : b.density ≤ a.density

end CsrMatrix

/-!
## Matrices
-/

namespace Percentile

section

variable {α : Type} [PruningOrder α] {p q : Percentile} {weights : Array α} {rows cols : Nat}

/-- Whether a matrix can be pruned does not depend on the percentage. -/
theorem prune_error_of {failure : Failure} (h : p.prune weights rows cols = .error failure) :
    q.prune weights rows cols = .error failure := by
  cases hlength : Size.checked (rows * cols) with
  | error fault =>
      have hboth : ∀ level : Percentile, level.prune weights rows cols = .error (.fault fault) := by
        intro level
        rw [prune, hlength]
        rfl
      rw [hboth] at h ⊢
      exact h
  | ok length =>
      rcases Size.of_checked hlength with ⟨hlimit, hEq⟩
      by_cases hsize : weights.size = rows * cols
      · cases hrows : (Fault.capacity).check (rows < offsetLimit) with
        | error fault =>
            have hboth : ∀ level : Percentile,
                level.prune weights rows cols = .error (.fault fault) := by
              intro level
              rw [prune, hlength, fault_ok_bind, if_neg (not_not.mpr (hsize.trans hEq.symm)), hrows]
              rfl
            rw [hboth] at h ⊢
            exact h
        | ok u =>
            rw [prune, hlength, fault_ok_bind, if_neg (not_not.mpr (hsize.trans hEq.symm)),
              hrows] at h
            cases h
      · rw [prune_mismatch _ hlimit hsize] at h ⊢
        exact h

omit [PruningOrder α] in
theorem mem_of_mem_matrixRow {r : Nat} {x : α} (h : x ∈ matrixRow weights cols r) :
    x ∈ weights := by
  rcases Array.mem_extract_iff_getElem.mp (Array.mem_toList_iff.mp h) with ⟨_, _, hEq⟩
  rw [← hEq]
  exact Array.getElem_mem _

theorem count_of_prune {a : CsrMatrix α} (h : p.prune weights rows cols = .ok a) :
    a.count = ((List.range rows).map fun r =>
      (p.pruneRow (matrixRow weights cols r)).length).sum := by
  rw [eq_of_prune h, CsrMatrix.count_ofRows, List.map_map]
  rfl

/-- The sum of equal lengths over the rows. -/
theorem sum_of_rows {lengths : Nat → Nat} {length : Nat} (h : ∀ r < rows, lengths r = length) :
    ((List.range rows).map lengths).sum = rows * length := by
  rw [List.map_congr_left fun r hr => h r (List.mem_range.mp hr), List.map_const',
    List.sum_replicate, List.length_range, smul_eq_mul]

theorem count_le_of_prune {a : CsrMatrix α} (h : p.prune weights rows cols = .ok a) :
    a.count ≤ rows * cols := by
  rw [count_of_prune h, ← sum_of_rows fun _ _ => rfl]
  apply List.sum_le_sum
  intro r hr
  rw [pruneRow, length_keptEntries]
  exact List.countP_le_length.trans (length_matrixRow (of_prune h).1 (List.mem_range.mp hr)).le

end

variable {p q : Percentile} {weights : Array Binary32} {rows cols : Nat}

theorem pruneRow_sublist (h : p.value.le q.value = true) {row : List Binary32}
    (hnumbers : ∀ x ∈ row, x.isNaN = false) : (q.pruneRow row).Sublist (p.pruneRow row) :=
  keptEntries_sublist_of_le hnumbers (dropCount_mono h row.length) (q.dropCount_le row.length)

theorem keepsPartOf_of_prune (h : p.value.le q.value = true)
    (hnumbers : ∀ x ∈ weights, x.isNaN = false) {a b : CsrMatrix Binary32}
    (ha : p.prune weights rows cols = .ok a) (hb : q.prune weights rows cols = .ok b) :
    b.KeepsPartOf a := by
  rcases entries_of_prune ha with ⟨harows, hacols, haentries⟩
  rcases entries_of_prune hb with ⟨hbrows, hbcols, hbentries⟩
  have hrow : ∀ r, (q.pruneRow (matrixRow weights cols r)).Sublist
      (p.pruneRow (matrixRow weights cols r)) := by
    intro r
    apply pruneRow_sublist h
    intro x hx
    exact hnumbers x (mem_of_mem_matrixRow hx)
  have hcount : b.count ≤ a.count := by
    rw [count_of_prune ha, count_of_prune hb]
    exact List.sum_le_sum fun r _ => (hrow r).length_le
  exact
    { rows_eq := hbrows.trans harows.symm
      cols_eq := hbcols.trans hacols.symm
      row := fun r hr => ⟨_, _, haentries r (harows ▸ hr), hbentries r (harows ▸ hr), hrow r⟩
      count_le := hcount
      density_le := CsrMatrix.density_mono (hbrows.trans harows.symm) (hbcols.trans hacols.symm)
        hcount (Nat.lt_of_le_of_lt (count_le_of_prune ha) (of_prune ha).2.1) }

/-- A percentage of zero keeps every entry of the matrix. -/
theorem keeps_all_of_zero (hzero : (p.value == 0) = true) {a : CsrMatrix Binary32}
    (ha : p.prune weights rows cols = .ok a) : a.count = rows * cols ∧
      ∀ r < rows, ∃ kept, a.entries r = .ok kept ∧
        ∀ c x, (c, x) ∈ kept ↔ (matrixRow weights cols r)[c]? = some x := by
  have hrow : ∀ row : List Binary32, p.pruneRow row = keptEntries none row := by
    intro row
    rw [pruneRow, threshold, dropCount_zero (toRat_of_beq_zero hzero), threshold_zero]
  constructor
  · rw [count_of_prune ha]
    apply sum_of_rows
    intro r hr
    have hall : (matrixRow weights cols r).countP (survives none) =
        (matrixRow weights cols r).length := List.countP_eq_length.mpr fun _ _ => rfl
    rw [hrow, length_keptEntries, hall, length_matrixRow (of_prune ha).1 hr]
  · intro r hr
    refine ⟨_, (entries_of_prune ha).2.2 r hr, ?_⟩
    intro c x
    rw [hrow, mem_keptEntries_iff]
    exact ⟨fun hkept => hkept.1, fun hplace => ⟨hplace, rfl⟩⟩

/-- A percentage that drops whole rows keeps no entry. -/
theorem keeps_none_of_dropCount (hdrop : q.dropCount cols = cols) {b : CsrMatrix Binary32}
    (hb : q.prune weights rows cols = .ok b) :
    b.count = 0 ∧ ∀ r < rows, b.entries r = .ok [] := by
  have hrow : ∀ r < rows, q.pruneRow (matrixRow weights cols r) = [] := by
    intro r hr
    have hlength := length_matrixRow (of_prune hb).1 hr
    have hle : q.dropCount (matrixRow weights cols r).length ≤
        (matrixRow weights cols r).length := q.dropCount_le _
    apply (thins_keptEntries hle).eq_nil
    rw [hlength, hdrop]
  constructor
  · rw [count_of_prune hb, ← Nat.mul_zero rows]
    apply sum_of_rows
    intro r hr
    rw [hrow r hr, List.length_nil]
  · intro r hr
    rw [(entries_of_prune hb).2.2 r hr, hrow r hr]

/-- What the percentages `p` and `q` leave of a matrix of weights, the second of them not being the
smaller one. -/
structure ThinsOut (p q : Percentile) (weights : Array Binary32) (rows cols : Nat) : Prop where
  dropCount_le : p.dropCount cols ≤ q.dropCount cols
  fails : ∀ failure, p.prune weights rows cols = .error failure ↔
    q.prune weights rows cols = .error failure
  succeeds : weights.size = rows * cols → rows * cols < Size.limit → rows < offsetLimit →
    ∃ a b, p.prune weights rows cols = .ok a ∧ q.prune weights rows cols = .ok b ∧
      b.KeepsPartOf a
  /-- At zero, whatever its sign, everything is kept. -/
  whole : (p.value == 0) = true → p.dropCount cols = 0 ∧
    ∀ a, p.prune weights rows cols = .ok a → a.count = rows * cols ∧
      ∀ r < rows, ∃ kept, a.entries r = .ok kept ∧
        ∀ c x, (c, x) ∈ kept ↔ (matrixRow weights cols r)[c]? = some x
  /-- At a hundred nothing is. -/
  empty : (q.value == ⟨0x42c80000⟩) = true → q.dropCount cols = cols ∧
    ∀ b, q.prune weights rows cols = .ok b → b.count = 0 ∧ ∀ r < rows, b.entries r = .ok []

theorem prune_thins_out (h : p.value.le q.value = true)
    (hnumbers : ∀ x ∈ weights, x.isNaN = false) (hcols : cols < 2 ^ 32) :
    p.ThinsOut q weights rows cols where
  dropCount_le := dropCount_mono h cols
  fails _ := ⟨prune_error_of, prune_error_of⟩
  succeeds hsize hlimit hrows := by
    rw [← hsize] at hlimit
    rcases p.prune_ok (holdsRows_self hsize) hlimit hrows with ⟨a, ha, _⟩
    rcases q.prune_ok (holdsRows_self hsize) hlimit hrows with ⟨b, hb, _⟩
    exact ⟨a, b, ha, hb, keepsPartOf_of_prune h hnumbers ha hb⟩
  whole hzero := ⟨dropCount_zero (toRat_of_beq_zero hzero) cols,
    fun _ ha => keeps_all_of_zero hzero ha⟩
  empty hhundred :=
    have hdrop := dropCount_hundred hhundred hcols
    ⟨hdrop, fun _ hb => keeps_none_of_dropCount hdrop hb⟩

/-- A quarter and a half of a row with an infinity and a negative zero. -/
theorem prune_thins_out_half :
    ∃ (p q : Percentile) (a b : CsrMatrix Binary32),
      p.value = ⟨0x41c80000⟩ ∧ q.value = ⟨0x42480000⟩ ∧
        p.prune #[1, ⟨0x80000000⟩, ⟨0x7f800000⟩, 0] 1 4 = .ok a ∧
        q.prune #[1, ⟨0x80000000⟩, ⟨0x7f800000⟩, 0] 1 4 = .ok b ∧ b.KeepsPartOf a := by
  have hthins : ThinsOut ⟨⟨0x41c80000⟩, by decide +kernel, by decide +kernel⟩
      ⟨⟨0x42480000⟩, by decide +kernel, by decide +kernel⟩
      #[1, ⟨0x80000000⟩, ⟨0x7f800000⟩, 0] 1 4 :=
    prune_thins_out (by decide +kernel) (by decide +kernel) (by decide)
  rcases hthins.succeeds rfl (by decide) (by decide) with ⟨a, b, ha, hb, hpart⟩
  exact ⟨_, _, a, b, rfl, rfl, ha, hb, hpart⟩

end Percentile
end ConvSweep
