import Mathlib
import ConvSweep.Fault
import ConvSweep.Loop

/-!
# Loops as folds

A loop whose steps cannot fail is a fold over a range.  Nested loops over two
ranges are one loop over the products, which is how a matrix kernel visits the
taps that a direct loop visits by channel, row and column.
-/

namespace ConvSweep
namespace Loop

variable {β : Type}

/-!
## Ranges
-/

theorem add_mul_div_of_lt {a b c : Nat} (h : b < c) : (a * c + b) / c = a := by
  have hc : 0 < c := by omega
  rw [Nat.add_comm, Nat.add_mul_div_right _ _ hc, Nat.div_eq_of_lt h, Nat.zero_add]

theorem add_mul_mod_of_lt {a b c : Nat} (h : b < c) : (a * c + b) % c = b := by
  rw [Nat.add_comm, Nat.add_mul_mod_self_right, Nat.mod_eq_of_lt h]

theorem mul_add_le {a m : Nat} (n : Nat) (ha : a < m) : a * n + n ≤ m * n := by
  rw [← Nat.succ_mul]
  exact Nat.mul_le_mul_right n ha

theorem add_mul_lt {a b m n : Nat} (ha : a < m) (hb : b < n) : a * n + b < m * n := by
  have hrow := mul_add_le n ha
  omega

theorem div_lt_of_lt_mul {i m n : Nat} (h : i < m * n) : i / n < m := by
  rw [Nat.mul_comm] at h
  exact Nat.div_lt_of_lt_mul h

theorem mod_lt_of_lt_mul {i m n : Nat} (h : i < m * n) : i % n < n := by
  apply Nat.mod_lt
  rcases Nat.eq_zero_or_pos n with hn | hn
  · rw [hn, Nat.mul_zero] at h
    exact absurd h (Nat.not_lt_zero i)
  · exact hn

/-!
## Rows at a stride
-/

section

variable {rows cols stride bound r : Nat} (hend : (rows - 1) * stride + cols ≤ bound)
  (hr : r < rows)
include hend hr

/-- A row ends at the latest where the last one does. -/
theorem row_end_le : r * stride + cols ≤ bound := by
  have hrow := Nat.mul_le_mul_right stride (Nat.le_sub_one_of_lt hr)
  omega

theorem row_place_lt {c : Nat} (hc : c < cols) : r * stride + c < bound :=
  Nat.lt_of_lt_of_le (Nat.add_lt_add_left hc _) (row_end_le hend hr)

end

/-- The rows without the gap after the last one are not more than the rows with their gaps. -/
theorem last_row_le {rows cols stride : Nat} (hrows : 0 < rows) (hcols : cols ≤ stride) :
    (rows - 1) * stride + cols ≤ rows * stride :=
  Nat.le_trans (Nat.add_le_add_left hcols _)
    (mul_add_le stride (Nat.sub_one_lt (Nat.ne_of_gt hrows)))

/-- The gap after the last row is not part of the rows. -/
theorem span_sub_gap {rows cols stride : Nat} (hrows : 0 < rows) (hcols : cols ≤ stride) :
    rows * stride - (stride - cols) = (rows - 1) * stride + cols := by
  have hlast : rows * stride = (rows - 1) * stride + stride := by
    rw [← Nat.succ_mul, Nat.succ_eq_add_one, Nat.sub_add_cancel hrows]
  omega

/-!
## Folds over ranges
-/

theorem foldl_range_congr {count : Nat} {f g : β → Nat → β} (x : β)
    (h : ∀ k < count, ∀ b, f b k = g b k) :
    (List.range count).foldl f x = (List.range count).foldl g x := by
  apply List.foldl_ext
  intro b k hk
  exact h k (List.mem_range.mp hk) b

/-- Loops that agree on the accumulators that they can reach have one result. -/
theorem foldl_range_invariant {count : Nat} {f g : β → Nat → β} {P : β → Prop} {x : β} (hx : P x)
    (h : ∀ k < count, ∀ b, P b → f b k = g b k ∧ P (g b k)) :
    (List.range count).foldl f x = (List.range count).foldl g x ∧
      P ((List.range count).foldl g x) := by
  induction count with
  | zero =>
      exact ⟨rfl, hx⟩
  | succ count ih =>
      rcases ih fun k hk => h k (Nat.lt_succ_of_lt hk) with ⟨hsame, hP⟩
      rw [List.range_succ, List.foldl_append, List.foldl_append, hsame]
      exact h count (Nat.lt_succ_self count) _ hP

/-- Two nested loops are one loop over the products. -/
theorem foldl_range_mul (m n : Nat) (f : β → Nat → Nat → β) (x : β) :
    (List.range m).foldl (fun x i => (List.range n).foldl (fun x j => f x i j) x) x =
      (List.range (m * n)).foldl (fun x p => f x (p / n) (p % n)) x := by
  induction m with
  | zero =>
      simp
  | succ m ih =>
      rw [List.range_succ, List.foldl_append, ih, Nat.succ_mul, List.range_add,
        List.foldl_append, List.foldl_map]
      simp only [List.foldl_cons, List.foldl_nil]
      apply foldl_range_congr
      intro j hj b
      rw [add_mul_div_of_lt hj, add_mul_mod_of_lt hj]

theorem foldl_add_eq_sum {R : Type} [CommRing R] (n : Nat) (g : Nat → R) (x : R) :
    (List.range n).foldl (fun acc i => acc + g i) x = x + ∑ i ∈ Finset.range n, g i := by
  induction n with
  | zero =>
      rw [Finset.sum_range_zero, add_zero]
      rfl
  | succ n ih =>
      rw [List.range_succ, List.foldl_append, ih, Finset.sum_range_succ, ← add_assoc]
      rfl

/-!
## Loops that cannot fail
-/

theorem foldRange_ok {start count : Nat} {step : β → Nat → Except Fault β}
    {g : β → Nat → β} (acc : β)
    (h : ∀ k, start ≤ k → k < start + count → ∀ b, step b k = .ok (g b k)) :
    foldRange start count step acc = .ok ((List.range' start count).foldl g acc) := by
  induction count generalizing start acc with
  | zero =>
      rfl
  | succ count ih =>
      have hstep := h start (by omega) (by omega) acc
      have hrest : foldRange (start + 1) count step (g acc start) = _ :=
        ih (g acc start) fun k hk hk' => h k (by omega) (by omega)
      rw [List.range'_succ, List.foldl_cons, ← hrest]
      simp only [foldRange, hstep]
      rfl

theorem foldRange_zero_ok {count : Nat} {step : β → Nat → Except Fault β}
    {g : β → Nat → β} (acc : β) (h : ∀ k < count, ∀ b, step b k = .ok (g b k)) :
    foldRange 0 count step acc = .ok ((List.range count).foldl g acc) := by
  rw [List.range_eq_range']
  apply foldRange_ok
  intro k _ hk b
  exact h k (by omega) b

/-!
## Strides
-/

/-- Every index below the extent lies in the tile that starts at a visited multiple. -/
theorem div_lt_strideCount {extent stride i : Nat} (hs : 0 < stride) (hi : i < extent) :
    i / stride < strideCount extent stride := by
  rw [strideCount, Nat.lt_iff_add_one_le, Nat.le_div_iff_mul_le hs, Nat.add_mul, Nat.one_mul]
  have hdiv := Nat.div_mul_le_self i stride
  omega

theorem mem_tile {extent stride i : Nat} (hs : 0 < stride) (hi : i < extent) :
    i / stride * stride ≤ i ∧
      i < i / stride * stride +
        (min (i / stride * stride + stride) extent - i / stride * stride) := by
  have hle := Nat.div_mul_le_self i stride
  have hlt : i < i / stride * stride + stride := Nat.lt_div_mul_add hs
  omega

/-- Every visited multiple is below the extent. -/
theorem mul_lt_of_lt_strideCount {extent stride t : Nat} (hs : 0 < stride)
    (ht : t < strideCount extent stride) : t * stride < extent := by
  rw [strideCount, Nat.lt_div_iff_mul_lt hs] at ht
  omega

theorem range_append_tile (stride extent t : Nat) :
    List.range (min (t * stride) extent) ++
        List.range' (t * stride) (min (t * stride + stride) extent - t * stride) =
      List.range (min ((t + 1) * stride) extent) := by
  rw [Nat.succ_mul]
  rcases Nat.le_total (t * stride) extent with hle | hle
  · have hlast : t * stride ≤ min (t * stride + stride) extent :=
      Nat.le_min.mpr ⟨Nat.le_add_right _ _, hle⟩
    have happend : List.range' 0 (t * stride) ++ List.range' (0 + t * stride) _ = _ :=
      List.range'_append_1 (n := min (t * stride + stride) extent - t * stride)
    rw [Nat.zero_add, Nat.add_sub_cancel' hlast] at happend
    rw [Nat.min_eq_left hle, List.range_eq_range', List.range_eq_range', happend]
  · have hnext := Nat.le_trans hle (Nat.le_add_right _ stride)
    rw [Nat.min_eq_right hle, Nat.min_eq_right hnext, Nat.sub_eq_zero_of_le hle, List.range'_zero,
      List.append_nil]

/-- One tile after the other, the indices are visited in ascending order. -/
theorem flatMap_tiles {extent stride : Nat} (hs : 0 < stride) :
    (List.range (strideCount extent stride)).flatMap (fun t =>
      List.range' (t * stride) (min (t * stride + stride) extent - t * stride)) =
      List.range extent := by
  have hfront : ∀ count, (List.range count).flatMap (fun t =>
      List.range' (t * stride) (min (t * stride + stride) extent - t * stride)) =
      List.range (min (count * stride) extent) := by
    intro count
    induction count with
    | zero =>
        rw [Nat.zero_mul, Nat.zero_min]
        rfl
    | succ count ih =>
        rw [List.range_succ, List.flatMap_append, ih, List.flatMap_singleton, range_append_tile]
  have hend : extent ≤ strideCount extent stride * stride := by
    apply Nat.le_of_not_lt
    intro hlt
    have hround := div_lt_strideCount hs hlt
    rw [Nat.mul_div_cancel _ hs] at hround
    exact Nat.lt_irrefl _ hround
  rw [hfront, Nat.min_eq_right hend]

theorem foldl_tiles {extent stride : Nat} (hs : 0 < stride) (f : β → Nat → β) (x : β) :
    (List.range (strideCount extent stride)).foldl (fun x t =>
      (List.range' (t * stride) (min (t * stride + stride) extent - t * stride)).foldl f x) x =
      (List.range extent).foldl f x := by
  rw [← List.foldl_flatMap, flatMap_tiles hs]

end Loop
end ConvSweep
