import Mathlib
import ConvSweep.Proofs.Executor.Construction
import ConvSweep.Proofs.Matrix.Parts
import ConvSweep.Proofs.Order
import ConvSweep.Proofs.Word.Multiply

/-!
# What pruning keeps

The threshold of a row is its `d`-th smallest entry by rank, and what exceeds it as a
number is kept.  At least `d` entries rank no higher than the threshold, and none of
them exceeds it, so at most `cols - d` entries are kept.  Ties with the threshold and
NaNs are lost besides; a row without either keeps exactly `cols - d` entries.
-/

namespace ConvSweep

open Binary32

/-!
## The smallest entries of a row
-/

/-- On a sorted list, a property that passes to smaller entries holds of the first entries, as
many as have it. -/
theorem getElem_iff_lt_countP {α : Type} {q : α → Bool} {xs : List α}
    (hsorted : xs.Pairwise fun x y => q y = true → q x = true) {i : Nat} (hi : i < xs.length) :
    q xs[i] = true ↔ i < xs.countP q := by
  induction xs generalizing i with
  | nil =>
      cases hi
  | cons x xs ih =>
      rcases List.pairwise_cons.mp hsorted with ⟨hfirst, hrest⟩
      by_cases hx : q x = true
      · rw [List.countP_cons_of_pos hx]
        cases i with
        | zero =>
            exact ⟨fun _ => Nat.succ_pos _, fun _ => hx⟩
        | succ i =>
            rw [List.getElem_cons_succ, ih hrest, Nat.add_lt_add_iff_right]
      · -- nothing after the first entry has the property either
        have hnone : ∀ y ∈ x :: xs, ¬ q y = true := by
          intro y hy hq
          rcases List.mem_cons.mp hy with hEq | hmem
          · exact hx (hEq ▸ hq)
          · exact hx (hfirst y hmem hq)
        rw [List.countP_eq_zero.mpr hnone]
        exact ⟨fun hq => absurd hq (hnone _ (List.getElem_mem hi)), nofun⟩

/--
The `d`-th smallest entry of a row by rank: fewer than `d` entries rank below it, and
`d` or more rank no higher.
-/
structure IsSmallest (d : Nat) (row : List Binary32) (t : Binary32) : Prop where
  mem : t ∈ row
  below : (row.countP fun x => x.rank < t.rank) < d
  within : d ≤ row.countP fun x => x.rank ≤ t.rank

instance (d : Nat) (row : List Binary32) (t : Binary32) : Decidable (IsSmallest d row t) :=
  decidable_of_iff ((∃ x ∈ row, x = t) ∧ (row.countP fun x => x.rank < t.rank) < d ∧
      d ≤ row.countP fun x => x.rank ≤ t.rank)
    ⟨fun ⟨⟨_, hmem, hEq⟩, hbelow, hwithin⟩ => ⟨hEq ▸ hmem, hbelow, hwithin⟩,
      fun h => ⟨⟨t, h.mem, rfl⟩, h.below, h.within⟩⟩

/-- A later entry in the sorted row ranks no lower. -/
theorem IsSmallest.rank_le {d d' : Nat} {row : List Binary32} {s t : Binary32}
    (hs : IsSmallest d row s) (ht : IsSmallest d' row t) (hle : d ≤ d') : s.rank ≤ t.rank := by
  by_contra hlt
  have hcount : (row.countP fun x => x.rank ≤ t.rank) ≤ row.countP fun x => x.rank < s.rank := by
    apply List.countP_mono_left
    intro x _ hx
    have hle := of_decide_eq_true hx
    exact decide_eq_true (by omega)
  have hbelow := hs.below
  have hwithin := ht.within
  omega

theorem IsSmallest.unique {d : Nat} {row : List Binary32} {s t : Binary32}
    (hs : IsSmallest d row s) (ht : IsSmallest d row t) : s = t :=
  rank_injective (Nat.le_antisymm (hs.rank_le ht (Nat.le_refl d)) (ht.rank_le hs (Nat.le_refl d)))

/-- The entries of a sorted row in order are its smallest ones. -/
theorem isSmallest_getElem {row sorted : List Binary32} (hperm : sorted.Perm row)
    (hsorted : sorted.Pairwise fun x y => x.rank ≤ y.rank) {i : Nat} (hi : i < sorted.length) :
    IsSmallest (i + 1) row sorted[i] where
  mem := hperm.mem_iff.mp (List.getElem_mem hi)
  below := by
    have hprefix : sorted.Pairwise fun x y =>
        decide (y.rank < sorted[i].rank) = true → decide (x.rank < sorted[i].rank) = true := by
      apply hsorted.imp
      intro x y hle hy
      exact decide_eq_true (Nat.lt_of_le_of_lt hle (of_decide_eq_true hy))
    have hself := (getElem_iff_lt_countP hprefix hi).not.mp (by simp)
    rw [hperm.countP_eq] at hself
    omega
  within := by
    have hprefix : sorted.Pairwise fun x y =>
        decide (y.rank ≤ sorted[i].rank) = true → decide (x.rank ≤ sorted[i].rank) = true := by
      apply hsorted.imp
      intro x y hle hy
      exact decide_eq_true (Nat.le_trans hle (of_decide_eq_true hy))
    have hself := (getElem_iff_lt_countP hprefix hi).mp (by simp)
    rw [hperm.countP_eq] at hself
    exact hself

theorem pairwise_mergeSort_rank (row : List Binary32) :
    (row.mergeSort PruningOrder.ranksBefore).Pairwise fun x y => x.rank ≤ y.rank := by
  have htrans : ∀ x y z : Binary32, PruningOrder.ranksBefore x y = true →
      PruningOrder.ranksBefore y z = true → PruningOrder.ranksBefore x z = true := by
    intro x y z hxy hyz
    exact decide_eq_true (Nat.le_trans (of_decide_eq_true hxy) (of_decide_eq_true hyz))
  have htotal : ∀ x y : Binary32,
      (PruningOrder.ranksBefore x y || PruningOrder.ranksBefore y x) = true := by
    intro x y
    rw [Bool.or_eq_true]
    exact (Nat.le_total x.rank y.rank).imp decide_eq_true decide_eq_true
  apply (List.pairwise_mergeSort htrans htotal row).imp
  intro x y h
  exact of_decide_eq_true h

theorem threshold_zero (row : List Binary32) : threshold 0 row = none := by
  rw [threshold, if_pos rfl]

/-- The threshold is the `d`-th smallest entry. -/
theorem threshold_isSmallest {d : Nat} {row : List Binary32} (hpos : 0 < d)
    (hle : d ≤ row.length) : ∃ t, threshold d row = some t ∧ IsSmallest d row t := by
  have hi : d - 1 < (row.mergeSort PruningOrder.ranksBefore).length := by
    rw [List.length_mergeSort]
    omega
  have hsmallest := isSmallest_getElem (List.mergeSort_perm row PruningOrder.ranksBefore)
    (pairwise_mergeSort_rank row) hi
  rw [Nat.sub_add_cancel hpos] at hsmallest
  refine ⟨_, ?_, hsmallest⟩
  rw [threshold, if_neg (Nat.ne_of_gt hpos), List.getElem?_eq_getElem hi]

/-!
## How many entries exceed the threshold
-/

/-- A row without NaNs in which no two entries are equal as numbers. -/
structure Distinct (row : List Binary32) : Prop where
  numbers : ∀ x ∈ row, x.isNaN = false
  differ : row.Pairwise fun x y => (x == y) = false

theorem Distinct.eq_of_beq {row : List Binary32} (h : Distinct row) {x y : Binary32}
    (hx : x ∈ row) (hy : y ∈ row) (hEq : (x == y) = true) : x = y := by
  have hsymm : Std.Symm fun x y : Binary32 => (x == y) = false := by
    constructor
    intro x y hxy
    apply Bool.eq_false_iff.mpr
    intro hyx
    rcases beq_iff.mp hyx with ⟨hy, hx, hplace⟩
    rw [beq_iff.mpr ⟨hx, hy, hplace.symm⟩] at hxy
    cases hxy
  by_contra hne
  rw [h.differ.forall hx hy hne] at hEq
  cases hEq

theorem Distinct.count_rank_le_one {row : List Binary32} (h : Distinct row) (n : Nat) :
    (row.map rank).count n ≤ 1 := by
  apply List.nodup_iff_count_le_one.mp
  apply List.pairwise_map.mpr
  apply h.differ.imp_of_mem
  intro x y hx _ hdiffer hEq
  rw [← rank_injective hEq, beq_self (h.numbers x hx)] at hdiffer
  cases hdiffer

section

variable {d : Nat} {row : List Binary32} {t : Binary32}

/-- Entries that exceed the threshold are not among the first `d`. -/
theorem IsSmallest.countP_lt_add_le (h : IsSmallest d row t) :
    row.countP t.lt + d ≤ row.length := by
  have hcount : (row.countP fun x => x.rank ≤ t.rank) ≤ row.countP fun x => ¬ t.lt x = true := by
    apply List.countP_mono_left
    intro x _ hle
    apply decide_eq_true
    intro hlt
    have hrank := rank_lt_of_lt hlt
    have hle := of_decide_eq_true hle
    omega
  have hlength := List.length_eq_countP_add_countP t.lt (l := row)
  have hwithin := h.within
  omega

/-- In a row of distinct numbers the entries that do not exceed the threshold are the first `d`. -/
theorem IsSmallest.countP_lt_add_eq (h : IsSmallest d row t) (hrow : Distinct row) :
    row.countP t.lt + d = row.length := by
  -- an entry that does not exceed the threshold ranks below it or is the threshold itself
  have hself : (row.filter fun x => ! decide (x.rank < t.rank)).countP
      (fun x => ¬ t.lt x = true) ≤ (row.map rank).count t.rank := by
    rw [List.countP_filter, List.count, List.countP_map]
    apply List.countP_mono_left
    intro x hx hkeep
    rw [Bool.and_eq_true, decide_eq_true_eq, Bool.not_eq_true', decide_eq_false_iff_not] at hkeep
    rcases lt_or_beq_or_lt (hrow.numbers x hx) (hrow.numbers t h.mem) with hlt | hEq | hgt
    · exact absurd (rank_lt_of_lt hlt) hkeep.2
    · rw [hrow.eq_of_beq hx h.mem hEq]
      exact beq_self_eq_true t.rank
    · exact absurd hgt hkeep.1
  have hbelow : (row.filter fun x => x.rank < t.rank).countP (fun x => ¬ t.lt x = true) ≤
      row.countP fun x => x.rank < t.rank := by
    rw [List.countP_eq_length_filter (l := row)]
    exact List.countP_le_length
  have hsplit := List.countP_eq_countP_filter_add row (fun x => ¬ t.lt x = true)
    fun x => x.rank < t.rank
  have hlength := List.length_eq_countP_add_countP t.lt (l := row)
  have hcount := hrow.count_rank_le_one t.rank
  have hfew := h.below
  have hle := h.countP_lt_add_le
  omega

end

/-!
## Kept entries
-/

section

variable {α : Type} [PruningOrder α]

theorem mem_keptEntries_iff {limit : Option α} {row : List α} {c : Nat} {x : α} :
    (c, x) ∈ keptEntries limit row ↔ row[c]? = some x ∧ survives limit x = true := by
  rw [keptEntries, List.mem_map]
  constructor
  · rintro ⟨⟨y, i⟩, hmem, hEq⟩
    cases hEq
    rcases List.mem_filter.mp hmem with ⟨hplace, hkeep⟩
    exact ⟨List.mk_mem_zipIdx_iff_getElem?.mp hplace, hkeep⟩
  · rintro ⟨hplace, hkeep⟩
    exact ⟨(x, c), List.mem_filter.mpr ⟨List.mk_mem_zipIdx_iff_getElem?.mpr hplace, hkeep⟩, rfl⟩

theorem length_keptEntries (limit : Option α) (row : List α) :
    (keptEntries limit row).length = row.countP (survives limit) := by
  have hplaces : row.countP (survives limit) =
      (row.zipIdx.map Prod.fst).countP (survives limit) := by
    rw [List.zipIdx_map_fst]
  rw [keptEntries, List.length_map, ← List.countP_eq_length_filter, hplaces, List.countP_map]
  rfl

theorem keptEntries_ascending (limit : Option α) (row : List α) :
    (keptEntries limit row).Pairwise fun a b => a.1 < b.1 :=
  List.pairwise_map.mp (List.pairwise_lt_range.sublist (CsrMatrix.keptEntries_sublist limit row))

end

/--
The entries that are kept of a row, in ascending columns and with the bits that they
had: all of them if `d` is zero, and otherwise those that exceed the `d`-th smallest.
-/
structure Selects (d : Nat) (row : List Binary32) (kept : List (Nat × Binary32)) : Prop where
  ascending : kept.Pairwise fun a b => a.1 < b.1
  whole : d = 0 → ∀ c x, (c, x) ∈ kept ↔ row[c]? = some x
  exceeding : 0 < d → ∃ t, IsSmallest d row t ∧
    ∀ c x, (c, x) ∈ kept ↔ row[c]? = some x ∧ t.lt x = true

/-- There is one such list of entries. -/
theorem Selects.unique {d : Nat} {row : List Binary32} {kept kept' : List (Nat × Binary32)}
    (h : Selects d row kept) (h' : Selects d row kept') : kept = kept' := by
  have hnodup : ∀ {entries : List (Nat × Binary32)},
      (entries.Pairwise fun a b => a.1 < b.1) → entries.Nodup := by
    intro entries hascending
    apply hascending.imp
    intro a b hlt hEq
    rw [hEq] at hlt
    exact Nat.lt_irrefl _ hlt
  have hmem : ∀ entry, entry ∈ kept ↔ entry ∈ kept' := by
    rintro ⟨c, x⟩
    rcases Nat.eq_zero_or_pos d with hzero | hpos
    · rw [h.whole hzero, h'.whole hzero]
    · rcases h.exceeding hpos with ⟨t, ht, hkept⟩
      rcases h'.exceeding hpos with ⟨t', ht', hkept'⟩
      rw [hkept, hkept', ht.unique ht']
  have hperm : kept.Perm kept' :=
    (List.perm_ext_iff_of_nodup (hnodup h.ascending) (hnodup h'.ascending)).mpr hmem
  apply hperm.eq_of_pairwise _ h.ascending h'.ascending
  intro a b _ _ hab hba
  exact absurd hba (Nat.lt_asymm hab)

/-- How many entries are kept of a row, and how they compare with the dropped ones. -/
structure Thins (d : Nat) (row : List Binary32) (kept : List (Nat × Binary32)) : Prop where
  length_le : kept.length ≤ row.length - d
  length_eq : Distinct row → kept.length = row.length - d
  eq_nil : d = row.length → kept = []
  dropped_lt : (∀ x ∈ row, x.isNaN = false) → ∀ c x c' y, (c, x) ∈ kept →
    row[c']? = some y → (c', y) ∉ kept → y.lt x = true

theorem selects_keptEntries {d : Nat} {row : List Binary32} (hle : d ≤ row.length) :
    Selects d row (keptEntries (threshold d row) row) where
  ascending := keptEntries_ascending _ row
  whole := by
    rintro rfl c x
    rw [mem_keptEntries_iff, threshold_zero]
    exact ⟨fun h => h.1, fun h => ⟨h, rfl⟩⟩
  exceeding hpos := by
    rcases threshold_isSmallest hpos hle with ⟨t, hthreshold, hsmallest⟩
    refine ⟨t, hsmallest, ?_⟩
    intro c x
    rw [mem_keptEntries_iff, hthreshold]
    rfl

theorem length_keptEntries_some {d : Nat} {row : List Binary32} {t : Binary32}
    (h : threshold d row = some t) :
    (keptEntries (threshold d row) row).length = row.countP t.lt := by
  rw [length_keptEntries, h]
  rfl

theorem length_keptEntries_zero (row : List Binary32) :
    (keptEntries (threshold 0 row) row).length = row.length := by
  rw [length_keptEntries, threshold_zero]
  exact List.countP_eq_length.mpr fun _ _ => rfl

theorem length_keptEntries_add_le {d : Nat} {row : List Binary32} (hle : d ≤ row.length) :
    (keptEntries (threshold d row) row).length + d ≤ row.length := by
  rcases Nat.eq_zero_or_pos d with rfl | hpos
  · exact Nat.le_of_eq (length_keptEntries_zero row)
  · rcases threshold_isSmallest hpos hle with ⟨t, hthreshold, hsmallest⟩
    rw [length_keptEntries_some hthreshold]
    exact hsmallest.countP_lt_add_le

theorem length_keptEntries_add_eq {d : Nat} {row : List Binary32} (hle : d ≤ row.length)
    (hrow : Distinct row) : (keptEntries (threshold d row) row).length + d = row.length := by
  rcases Nat.eq_zero_or_pos d with rfl | hpos
  · exact length_keptEntries_zero row
  · rcases threshold_isSmallest hpos hle with ⟨t, hthreshold, hsmallest⟩
    rw [length_keptEntries_some hthreshold]
    exact hsmallest.countP_lt_add_eq hrow

/-- The limit lies between the numbers that are dropped and those that are kept. -/
theorem lt_of_mem_keptEntries {limit : Option Binary32} {row : List Binary32} {c c' : Nat}
    {x y : Binary32} (hy : y.isNaN = false) (hkept : (c, x) ∈ keptEntries limit row)
    (hplace : row[c']? = some y) (hdropped : (c', y) ∉ keptEntries limit row) :
    y.lt x = true := by
  rw [mem_keptEntries_iff] at hkept hdropped
  have hnot : ¬ survives limit y = true := fun h => hdropped ⟨hplace, h⟩
  cases limit with
  | none =>
      exact absurd rfl hnot
  | some t =>
      exact lt_of_not_lt_of_lt hy hnot hkept.2

theorem thins_keptEntries {d : Nat} {row : List Binary32} (hle : d ≤ row.length) :
    Thins d row (keptEntries (threshold d row) row) where
  length_le := Nat.le_sub_of_add_le (length_keptEntries_add_le hle)
  length_eq hrow := Nat.eq_sub_of_add_eq (length_keptEntries_add_eq hle hrow)
  eq_nil hd := by
    have hlength := length_keptEntries_add_le hle
    apply List.eq_nil_of_length_eq_zero
    omega
  dropped_lt hnumbers _ _ _ y hkept hplace hdropped :=
    lt_of_mem_keptEntries (hnumbers y (List.mem_of_getElem? hplace)) hkept hplace hdropped

/-!
## Matrices
-/

namespace Percentile

theorem entries_of_prune {α : Type} [PruningOrder α] {p : Percentile} {weights : Array α}
    {rows cols : Nat} {a : CsrMatrix α} (h : p.prune weights rows cols = .ok a) :
    a.rows = rows ∧ a.cols = cols ∧
      ∀ r < rows, a.entries r = .ok (p.pruneRow (matrixRow weights cols r)) := by
  cases eq_of_prune h
  refine ⟨?_, rfl, ?_⟩
  · rw [CsrMatrix.ofRows, List.length_map, List.length_range]
  · intro r hr
    rw [CsrMatrix.entries_ofRows cols (by simpa using hr), List.getElem_map, List.getElem_range]

theorem prune_mismatch {α : Type} [PruningOrder α] (p : Percentile) {weights : Array α}
    {rows cols : Nat} (hlimit : rows * cols < Size.limit) (hsize : weights.size ≠ rows * cols) :
    p.prune weights rows cols =
      .error (.error (.shapeMismatch (.matrixSize weights.size rows cols))) := by
  rw [prune, Size.checked_of_lt hlimit, fault_ok_bind, if_pos hsize]
  rfl

/-- What pruning does with a buffer of weights. -/
structure Prunes (p : Percentile) (weights : Array Binary32) (rows cols : Nat) : Prop where
  /-- The call that checks the percentage first. -/
  call : ConvSweep.prune weights rows cols p.value = p.prune weights rows cols
  /-- Its size operations do not leave the word on the way. -/
  checked : rows < Size.limit → cols < Size.limit →
    Word.prune p weights rows cols = p.prune weights rows cols
  mismatch : rows * cols < Size.limit → weights.size ≠ rows * cols →
    p.prune weights rows cols =
      .error (.error (.shapeMismatch (.matrixSize weights.size rows cols)))
  succeeds : (∃ a, p.prune weights rows cols = .ok a) ↔
    weights.size = rows * cols ∧ rows * cols < Size.limit ∧ rows < offsetLimit
  row : ∀ a, p.prune weights rows cols = .ok a → a.rows = rows ∧ a.cols = cols ∧
    ∀ r < rows, (matrixRow weights cols r).length = cols ∧ ∃ kept, a.entries r = .ok kept ∧
      Selects (p.dropCount cols) (matrixRow weights cols r) kept ∧
      Thins (p.dropCount cols) (matrixRow weights cols r) kept
  /-- What is kept of a row depends on the row alone. -/
  alone : ∀ a, p.prune weights rows cols = .ok a →
    ∀ (weights' : Array Binary32) (rows' : Nat) (a' : CsrMatrix Binary32),
      p.prune weights' rows' cols = .ok a' → ∀ r < rows, ∀ r' < rows',
        matrixRow weights cols r = matrixRow weights' cols r' → a.entries r = a'.entries r'

/-- Pruning keeps, row by row, the entries that exceed the `d`-th smallest of their row. -/
theorem prune_selects (p : Percentile) (weights : Array Binary32) (rows cols : Nat) :
    p.Prunes weights rows cols where
  call := by
    rw [ConvSweep.prune, ofNumber_value]
    rfl
  checked hrows hcols := Word.prune_eq p weights hrows hcols
  mismatch := p.prune_mismatch
  succeeds := by
    constructor
    · rintro ⟨a, ha⟩
      exact of_prune ha
    · rintro ⟨hsize, hlimit, hrows⟩
      rw [← hsize] at hlimit
      rcases p.prune_ok (holdsRows_self hsize) hlimit hrows with ⟨a, ha, _⟩
      exact ⟨a, ha⟩
  row a ha := by
    rcases entries_of_prune ha with ⟨hrows, hcols, hentries⟩
    refine ⟨hrows, hcols, ?_⟩
    intro r hr
    have hlength := length_matrixRow (of_prune ha).1 hr
    have hle : p.dropCount cols ≤ (matrixRow weights cols r).length := by
      rw [hlength]
      exact p.dropCount_le cols
    have hrow : p.pruneRow (matrixRow weights cols r) =
        keptEntries (ConvSweep.threshold (p.dropCount cols) (matrixRow weights cols r))
          (matrixRow weights cols r) := by
      rw [pruneRow, threshold, hlength]
    rw [hentries r hr, hrow]
    exact ⟨hlength, _, rfl, selects_keptEntries hle, thins_keptEntries hle⟩
  alone a ha weights' rows' a' ha' r hr r' hr' hrow := by
    rw [(entries_of_prune ha).2.2 r hr, (entries_of_prune ha').2.2 r' hr', hrow]

/-- The smaller half of a row ends with the negative zero, which the positive one does not exceed. -/
theorem prune_selects_zeros :
    ∃ a : CsrMatrix Binary32,
      ConvSweep.prune #[0, 1, ⟨0xffc00000⟩, ⟨0x80000000⟩] 1 4 ⟨0x42480000⟩ = .ok a ∧
        a.entries 0 = .ok [(1, 1)] := by
  have hprunes := prune_selects ⟨⟨0x42480000⟩, by decide +kernel, by decide +kernel⟩
    #[0, 1, ⟨0xffc00000⟩, ⟨0x80000000⟩] 1 4
  rcases hprunes.succeeds.mpr ⟨rfl, by decide, by decide⟩ with ⟨a, ha⟩
  rcases (hprunes.row a ha).2.2 0 (by decide) with ⟨_, kept, hentries, hselects, _⟩
  have hdrop : dropCount ⟨⟨0x42480000⟩, by decide +kernel, by decide +kernel⟩ 4 = 2 := by
    decide +kernel
  rw [hdrop] at hselects
  have hkept : Selects 2 [0, 1, ⟨0xffc00000⟩, ⟨0x80000000⟩] [(1, 1)] :=
    { ascending := List.pairwise_singleton _ _
      whole := nofun
      exceeding := by
        intro _
        refine ⟨⟨0x80000000⟩, by decide +kernel, ?_⟩
        intro c x
        rw [List.mem_singleton, Prod.mk.injEq]
        constructor
        · rintro ⟨rfl, rfl⟩
          exact ⟨rfl, by decide +kernel⟩
        · rintro ⟨hplace, hlt⟩
          match c with
          | 0 =>
              cases hplace
              exact absurd hlt (by decide +kernel)
          | 1 =>
              cases hplace
              exact ⟨rfl, rfl⟩
          | 2 =>
              cases hplace
              exact absurd hlt (by decide +kernel)
          | 3 =>
              cases hplace
              exact absurd hlt (by decide +kernel)
          | c + 4 =>
              cases hplace }
  refine ⟨a, hprunes.call.trans ha, ?_⟩
  rw [hentries, hselects.unique hkept]

end Percentile
end ConvSweep
