import Mathlib
import ConvSweep.Proofs.Matrix.Pruning

/-!
# Pruning what is pruned

The entries that a row has lost are zeros in its dense form.  There are at least as
many of them as the drop count, and if the threshold was not negative, every entry
that was kept ranks above them.  So the threshold of the new row is zero, and it keeps
the same entries: pruning the dense form again gives the same matrix.
-/

namespace ConvSweep

open Binary32

/-!
## Rows
-/

/-- The row with zeros in the places of the entries that do not survive. -/
def cleared (limit : Option Binary32) (row : List Binary32) : List Binary32 :=
  row.map fun x => if survives limit x then x else 0

theorem length_cleared (limit : Option Binary32) (row : List Binary32) :
    (cleared limit row).length = row.length :=
  List.length_map _

theorem cleared_none (row : List Binary32) : cleared none row = row :=
  List.map_id' row

theorem getElem?_cleared_iff {limit : Option Binary32} {row : List Binary32} {c : Nat}
    {y : Binary32} : (cleared limit row)[c]? = some y ↔
      ∃ x, row[c]? = some x ∧ (if survives limit x then x else 0) = y := by
  rw [cleared, List.getElem?_map, Option.map_eq_some_iff]

/-- The ranks of positive numbers lie above that of the zero without a sign. -/
theorem rank_zero_lt {x : Binary32} (h : 0 < x.place) : (0 : Binary32).rank < x.rank := by
  have hzero : (0 : Binary32).rank = 2 ^ 31 := rfl
  have hx := rank_cases x
  omega

section

variable {d : Nat} {row : List Binary32} {t : Binary32}

/-- What exceeds a threshold that is not negative is positive. -/
theorem place_pos_of_lt (ht : le 0 t = true) {x : Binary32} (h : t.lt x = true) :
    0 < x.place := by
  have hplace : (0 : Int) ≤ t.place := (le_iff.mp ht).2.2
  have hlt := (lt_iff.mp h).2.2
  omega

/-- The lost entries are the smallest ones of the cleared row, and there are enough of them. -/
theorem IsSmallest.cleared (h : IsSmallest d row t) (ht : le 0 t = true) :
    IsSmallest d (cleared (some t) row) 0 where
  mem := by
    have hlost : ¬ t.lt t = true := by
      intro hlt
      exact Int.lt_irrefl _ (lt_iff.mp hlt).2.2
    exact List.mem_map.mpr ⟨t, h.mem, if_neg hlost⟩
  below := by
    have hnone : ((ConvSweep.cleared (some t) row).countP fun x => x.rank < (0 : Binary32).rank) =
        0 := by
      rw [List.countP_eq_zero]
      intro y hy
      rcases List.mem_map.mp hy with ⟨x, _, rfl⟩
      rw [decide_eq_true_eq, Nat.not_lt]
      by_cases hkept : t.lt x = true
      · rw [if_pos (show survives (some t) x = true from hkept)]
        exact (rank_zero_lt (place_pos_of_lt ht hkept)).le
      · rw [if_neg (show ¬ survives (some t) x = true from hkept)]
    have hwithin := h.within
    have hbelow := h.below
    omega
  within := by
    have hlost : row.countP (fun x => ¬ t.lt x = true) ≤
        (ConvSweep.cleared (some t) row).countP fun x => x.rank ≤ (0 : Binary32).rank := by
      rw [ConvSweep.cleared, List.countP_map]
      apply List.countP_mono_left
      intro x _ hlost
      have hnot := of_decide_eq_true hlost
      rw [Function.comp_apply, if_neg (show ¬ survives (some t) x = true from hnot)]
      exact decide_eq_true (Nat.le_refl _)
    have hlength := List.length_eq_countP_add_countP t.lt (l := row)
    have hkept := h.countP_lt_add_le
    omega

theorem selects_cleared (hle : d ≤ row.length)
    (hnonneg : ∀ t, threshold d row = some t → le 0 t = true) :
    Selects d (cleared (threshold d row) row) (keptEntries (threshold d row) row) where
  ascending := keptEntries_ascending _ row
  whole := by
    rintro rfl c x
    rw [threshold_zero, cleared_none, mem_keptEntries_iff]
    exact ⟨fun h => h.1, fun h => ⟨h, rfl⟩⟩
  exceeding hpos := by
    rcases threshold_isSmallest hpos hle with ⟨t, hthreshold, hsmallest⟩
    have ht := hnonneg t hthreshold
    rw [hthreshold]
    refine ⟨0, hsmallest.cleared ht, ?_⟩
    intro c x
    rw [mem_keptEntries_iff, getElem?_cleared_iff]
    constructor
    · rintro ⟨hplace, hkept⟩
      have hlt := lt_iff.mp hkept
      exact ⟨⟨x, hplace, if_pos hkept⟩, lt_iff.mpr ⟨rfl, hlt.2.1, place_pos_of_lt ht hkept⟩⟩
    · rintro ⟨⟨y, hplace, hEq⟩, hlt⟩
      by_cases hkept : survives (some t) y = true
      · rw [if_pos hkept] at hEq
        exact ⟨hEq ▸ hplace, hEq ▸ hkept⟩
      · rw [if_neg hkept] at hEq
        rw [← hEq] at hlt
        exact absurd (lt_iff.mp hlt).2.2 (Int.lt_irrefl _)

/-- The cleared row keeps the entries that were kept before. -/
theorem keptEntries_cleared (hle : d ≤ row.length)
    (hnonneg : ∀ t, threshold d row = some t → le 0 t = true) :
    keptEntries (threshold d (cleared (threshold d row) row)) (cleared (threshold d row) row) =
      keptEntries (threshold d row) row := by
  have hle' : d ≤ (cleared (threshold d row) row).length := by
    rw [length_cleared]
    exact hle
  exact (selects_keptEntries hle').unique (selects_cleared hle hnonneg)

end

/-!
## Matrices
-/

namespace Percentile

variable {p : Percentile} {weights : Array Binary32} {rows cols : Nat}

/-- In every row the threshold is missing, or a number that is not below zero. -/
def NonnegThresholds (p : Percentile) (weights : Array Binary32) (rows cols : Nat) : Prop :=
  ∀ r < rows, ∀ t, p.threshold (matrixRow weights cols r) = some t → le 0 t = true

theorem pruneRow_cleared {row : List Binary32}
    (hnonneg : ∀ t, p.threshold row = some t → le 0 t = true) :
    p.pruneRow (cleared (p.threshold row) row) = p.pruneRow row := by
  have hkept := keptEntries_cleared (p.dropCount_le row.length) hnonneg
  rw [pruneRow, pruneRow, threshold, threshold, length_cleared]
  exact hkept

/-- A row of the dense form is the row of weights with zeros for what it has lost. -/
theorem matrixRow_toDense {a : CsrMatrix Binary32} {dense : Array Binary32}
    (ha : p.prune weights rows cols = .ok a) (hdense : a.toDense = .ok dense) {r : Nat}
    (hr : r < rows) : matrixRow dense cols r =
      cleared (p.threshold (matrixRow weights cols r)) (matrixRow weights cols r) := by
  have hweights := holdsRows_self (of_prune ha).1
  have hrows := CsrMatrix.of_toDense (stores_of_prune hweights ha) hdense
  rw [matrixRow, matrixRow, hrows.extract_row hr, hweights.extract_row hr, toList_tabulate,
    toList_tabulate, cleared, List.map_map]
  rfl

theorem prune_toDense {a : CsrMatrix Binary32} {dense : Array Binary32}
    (hnonneg : p.NonnegThresholds weights rows cols) (ha : p.prune weights rows cols = .ok a)
    (hdense : a.toDense = .ok dense) : p.prune dense rows cols = .ok a := by
  have hweights := holdsRows_self (of_prune ha).1
  have hrows := CsrMatrix.of_toDense (stores_of_prune hweights ha) hdense
  rcases of_prune ha with ⟨_, hlimit, hoffsets⟩
  rw [← hrows.size_eq] at hlimit
  rcases p.prune_ok hrows hlimit hoffsets with ⟨b, hb, _⟩
  have hsame : b = a := by
    rw [eq_of_prune hb, eq_of_prune ha]
    congr 1
    apply List.map_congr_left
    intro r hr
    have hr := List.mem_range.mp hr
    rw [matrixRow_toDense ha hdense hr]
    exact pruneRow_cleared (hnonneg r hr)
  rw [hb, hsame]

/-- Pruning the dense form again at the same percentage changes nothing, if no threshold was
negative. -/
theorem prune_idempotent (hsize : weights.size < Size.bufferLimit)
    (hnonneg : p.NonnegThresholds weights rows cols) :
    (∀ a, p.prune weights rows cols = .ok a →
      ∃ dense, a.toDense = .ok dense ∧ p.prune dense rows cols = .ok a) ∧
    (do
      let a ← p.prune weights rows cols
      let dense ← a.toDense
      p.prune dense rows cols) = p.prune weights rows cols := by
  have hagain : ∀ a, p.prune weights rows cols = .ok a →
      ∃ dense, a.toDense = .ok dense ∧ p.prune dense rows cols = .ok a := by
    intro a ha
    have hweights := holdsRows_self (of_prune ha).1
    rw [(of_prune ha).1] at hsize
    rcases CsrMatrix.toDense_ok (stores_of_prune hweights ha) hsize with ⟨dense, hdense, _⟩
    exact ⟨dense, hdense, prune_toDense hnonneg ha hdense⟩
  refine ⟨hagain, ?_⟩
  cases ha : p.prune weights rows cols with
  | error failure =>
      rfl
  | ok a =>
      rcases hagain a ha with ⟨dense, hdense, hsame⟩
      rw [ok_bind, hdense, fault_ok_bind, hsame]

/-- A one, the negative zero, a NaN that ranks below it, and infinity. -/
def mixedRow : Array Binary32 :=
  #[1, ⟨0x80000000⟩, ⟨0xffc00000⟩, ⟨0x7f800000⟩]

/-- The threshold of one half is the negative zero, which counts as zero. -/
theorem prune_idempotent_mixed :
    ∃ (p : Percentile) (a : CsrMatrix Binary32) (dense : Array Binary32),
      p.value = ⟨0x42480000⟩ ∧ p.prune mixedRow 1 4 = .ok a ∧ a.toDense = .ok dense ∧
        p.prune dense 1 4 = .ok a := by
  let p : Percentile := ⟨⟨0x42480000⟩, by decide +kernel, by decide +kernel⟩
  have hdrop : p.dropCount 4 = 2 := by decide +kernel
  have hzero : IsSmallest 2 (matrixRow mixedRow 4 0) ⟨0x80000000⟩ := by decide +kernel
  have hthreshold : ∃ t, ConvSweep.threshold 2 (matrixRow mixedRow 4 0) = some t ∧
      IsSmallest 2 (matrixRow mixedRow 4 0) t := threshold_isSmallest (by decide) (by decide)
  have hnonneg : p.NonnegThresholds mixedRow 1 4 := by
    intro r hr t ht
    obtain rfl : r = 0 := Nat.lt_one_iff.mp hr
    have ht : ConvSweep.threshold 2 (matrixRow mixedRow 4 0) = some t := hdrop ▸ ht
    rcases hthreshold with ⟨t', ht', hsmallest⟩
    rw [ht] at ht'
    cases ht'
    rw [hsmallest.unique hzero]
    decide +kernel
  have hweights : HoldsRows mixedRow 1 4 _ := holdsRows_self rfl
  rcases p.prune_ok hweights (by decide) (by decide) with ⟨a, ha, _⟩
  rcases (prune_idempotent (by decide) hnonneg).1 a ha with ⟨dense, hdense, hsame⟩
  exact ⟨p, a, dense, rfl, ha, hdense, hsame⟩

end Percentile
end ConvSweep
