import Mathlib
import ConvSweep.Rounding

/-!
# Laws of rounding

Rounding to a count of significant bits keeps the order of numbers, leaves the
numbers alone that have no more bits, and moves a number by half a unit in its last
place at most.  The grid becomes coarser from one binade to the next, so the order is
compared inside a binade first; between two binades the power of two that separates
them is a point of both grids.
-/

namespace ConvSweep
namespace Rounding

/-!
## The nearest integer
-/

/-- Half or less of the way the integer below is taken, half or more of it the one above. -/
theorem nearestEven_cases (x : Rat) :
    nearestEven x = x.floor ∧ x - x.floor ≤ 1 / 2 ∨
      nearestEven x = x.floor + 1 ∧ 1 / 2 ≤ x - x.floor := by
  rw [nearestEven]
  split
  · rename_i hbelow
    exact Or.inl ⟨rfl, hbelow.le⟩
  · rename_i hhalf
    have hhalf := not_lt.mp hhalf
    split
    · exact Or.inr ⟨rfl, hhalf⟩
    · rename_i habove
      split
      · exact Or.inl ⟨rfl, not_lt.mp habove⟩
      · exact Or.inr ⟨rfl, hhalf⟩

theorem abs_nearestEven_sub_le (x : Rat) : |(nearestEven x : Rat) - x| ≤ 1 / 2 := by
  have hfloor := Rat.floor_le x
  have hnext := Rat.lt_floor_add_one x
  push_cast at hnext
  rw [abs_le]
  rcases nearestEven_cases x with ⟨hEq, hrest⟩ | ⟨hEq, hrest⟩
  · rw [hEq]
    constructor <;> linarith
  · rw [hEq]
    push_cast
    constructor <;> linarith

theorem nearestEven_intCast (n : Int) : nearestEven (n : Rat) = n := by
  rw [nearestEven, Rat.floor_intCast, sub_self, if_pos (by norm_num)]

theorem nearestEven_mono {x y : Rat} (h : x ≤ y) : nearestEven x ≤ nearestEven y := by
  rcases (Rat.floor_monotone h).lt_or_eq with hlt | hEq
  · -- the integer above the one is at most the integer below the other
    have hx : nearestEven x ≤ x.floor + 1 := by
      rcases nearestEven_cases x with ⟨hEq, _⟩ | ⟨hEq, _⟩ <;> omega
    have hy : y.floor ≤ nearestEven y := by
      rcases nearestEven_cases y with ⟨hEq, _⟩ | ⟨hEq, _⟩ <;> omega
    omega
  · have hrest : x - x.floor ≤ y - y.floor := by
      rw [hEq]
      linarith
    rw [hEq] at hrest
    rw [nearestEven, nearestEven, hEq]
    split_ifs <;> first | omega | linarith

/-- The nearest integer of which the larger one of two is taken is not above `n` until half of the
way to the next is made. -/
theorem nearestUp_le_iff {x : Rat} {n : Int} : nearestUp x ≤ n ↔ x < n + 1 / 2 := by
  rw [nearestUp, ← Int.lt_add_one_iff, Rat.floor_lt_iff]
  push_cast
  constructor <;> intro h <;> linarith

theorem nearestUp_intCast (n : Int) : nearestUp (n : Rat) = n := by
  apply le_antisymm
  · rw [nearestUp_le_iff]
    linarith
  · rw [nearestUp, Rat.le_floor_iff]
    linarith

theorem nearestUp_mono {x y : Rat} (h : x ≤ y) : nearestUp x ≤ nearestUp y :=
  Rat.floor_monotone (by linarith)

/-!
## Binades
-/

theorem two_zpow_pos (e : Int) : (0 : Rat) < 2 ^ e :=
  zpow_pos (by norm_num) e

theorem two_zpow_le_iff {e f : Int} : (2 : Rat) ^ e ≤ 2 ^ f ↔ e ≤ f :=
  zpow_le_zpow_iff_right₀ (by norm_num)

theorem two_zpow_lt_iff {e f : Int} : (2 : Rat) ^ e < 2 ^ f ↔ e < f :=
  zpow_lt_zpow_iff_right₀ (by norm_num)

theorem two_zpow_add_one (e : Int) : (2 : Rat) ^ (e + 1) = 2 * 2 ^ e := by
  rw [zpow_add_one₀ (by norm_num), mul_comm]

theorem two_zpow_natCast (n : Nat) : (2 : Rat) ^ (n : Int) = ((2 ^ n : Nat) : Rat) := by
  rw [zpow_natCast]
  norm_cast

theorem two_zpow_log2 {n : Nat} (hn : 0 < n) :
    (2 : Rat) ^ (n.log2 : Int) ≤ n ∧ (n : Rat) < 2 ^ ((n.log2 : Int) + 1) := by
  rw [← Nat.cast_succ, two_zpow_natCast, two_zpow_natCast]
  exact ⟨Nat.cast_le.mpr (Nat.log2_self_le hn.ne'), Nat.cast_lt.mpr Nat.lt_log2_self⟩

/-- A positive number lies in its binade. -/
theorem binade_spec {x : Rat} (hx : 0 < x) : (2 : Rat) ^ binade x ≤ x ∧ x < 2 ^ (binade x + 1) := by
  have hnum : 0 < x.num := Rat.num_pos.mpr hx
  have hcast : ((x.num.natAbs : Nat) : Rat) = x.num := by
    rw [← Int.cast_natCast, Int.natAbs_of_nonneg hnum.le]
  have hproduct : x * x.den = x.num.natAbs := by
    rw [hcast, Rat.mul_den_eq_num]
  rcases two_zpow_log2 (n := x.num.natAbs) (by omega) with ⟨hnumLow, hnumHigh⟩
  rcases two_zpow_log2 x.den_pos with ⟨hdenLow, hdenHigh⟩
  -- the quotient of the two binades is right or one too large
  have hhigh : x < 2 ^ ((x.num.natAbs.log2 : Int) - x.den.log2 + 1) := by
    have hsplit : (x.num.natAbs.log2 : Int) - x.den.log2 + 1 =
        x.num.natAbs.log2 + 1 - x.den.log2 := by omega
    rw [hsplit, zpow_sub₀ (by norm_num), lt_div_iff₀ (two_zpow_pos _)]
    calc x * 2 ^ (x.den.log2 : Int) ≤ x * x.den := mul_le_mul_of_nonneg_left hdenLow hx.le
      _ = x.num.natAbs := hproduct
      _ < 2 ^ ((x.num.natAbs.log2 : Int) + 1) := hnumHigh
  have hlow : 2 ^ ((x.num.natAbs.log2 : Int) - x.den.log2 - 1) ≤ x := by
    have hsplit : (x.num.natAbs.log2 : Int) - x.den.log2 - 1 =
        x.num.natAbs.log2 - (x.den.log2 + 1) := by omega
    rw [hsplit, zpow_sub₀ (by norm_num), div_le_iff₀ (two_zpow_pos _)]
    calc (2 : Rat) ^ (x.num.natAbs.log2 : Int) ≤ x.num.natAbs := hnumLow
      _ = x * x.den := hproduct.symm
      _ ≤ x * 2 ^ ((x.den.log2 : Int) + 1) := mul_le_mul_of_nonneg_left hdenHigh.le hx.le
  rw [binade]
  split
  · rename_i hguess
    exact ⟨hguess, hhigh⟩
  · rename_i hguess
    rw [sub_add_cancel]
    exact ⟨hlow, not_le.mp hguess⟩

/-- The binade of a number is the only one that it lies in. -/
theorem binade_eq {x : Rat} {e : Int} (hlow : (2 : Rat) ^ e ≤ x) (hhigh : x < 2 ^ (e + 1)) :
    binade x = e := by
  rcases binade_spec ((two_zpow_pos e).trans_le hlow) with ⟨hlow', hhigh'⟩
  have hle := two_zpow_lt_iff.mp (hlow'.trans_lt hhigh)
  have hle' := two_zpow_lt_iff.mp (hlow.trans_lt hhigh')
  omega

theorem binade_mono {x y : Rat} (hx : 0 < x) (h : x ≤ y) : binade x ≤ binade y := by
  have hlow := (binade_spec hx).1
  have hhigh := (binade_spec (hx.trans_le h)).2
  have hlt := two_zpow_lt_iff.mp ((hlow.trans h).trans_lt hhigh)
  omega

/-!
## Significant bits
-/

section

variable {bits : Nat}

theorem significant_of_nonpos {x : Rat} (h : x ≤ 0) : significant bits x = 0 :=
  if_pos h

theorem significant_of_pos {x : Rat} (h : 0 < x) :
    significant bits x = nearestEven (x / 2 ^ (binade x - bits + 1)) * 2 ^ (binade x - bits + 1) :=
  if_neg (not_le.mpr h)

/-- Points of a coarser grid are points of the grid, and stay where they are. -/
theorem toMultiple_of_le {e f : Int} (h : e ≤ f) (n : Int) :
    toMultiple e ((n : Rat) * 2 ^ f) = n * 2 ^ f := by
  have hsplit : (2 : Rat) ^ f = ((2 ^ (f - e).toNat : Int) : Rat) * 2 ^ e := by
    push_cast
    rw [← zpow_natCast, Int.toNat_of_nonneg (by omega), ← zpow_add₀ (by norm_num), sub_add_cancel]
  rw [toMultiple, hsplit, ← mul_assoc, mul_div_cancel_right₀ _ (two_zpow_pos e).ne',
    ← Int.cast_mul, nearestEven_intCast]

theorem toMultiple_two_zpow {e f : Int} (h : e ≤ f) : toMultiple e (2 ^ f) = 2 ^ f := by
  simpa using toMultiple_of_le h 1

theorem toMultiple_mono (e : Int) {x y : Rat} (h : x ≤ y) : toMultiple e x ≤ toMultiple e y := by
  have hscaled : x / 2 ^ e ≤ y / 2 ^ e := div_le_div_of_nonneg_right h (two_zpow_pos e).le
  exact mul_le_mul_of_nonneg_right (Int.cast_le.mpr (nearestEven_mono hscaled)) (two_zpow_pos e).le

theorem abs_toMultiple_sub_le (e : Int) (x : Rat) : |toMultiple e x - x| ≤ 2 ^ e / 2 := by
  have hpos := two_zpow_pos e
  have hscaled : toMultiple e x - x = (nearestEven (x / 2 ^ e) - x / 2 ^ e) * 2 ^ e := by
    rw [toMultiple, sub_mul, div_mul_cancel₀ _ hpos.ne']
  rw [hscaled, abs_mul, abs_of_pos hpos]
  linarith [mul_le_mul_of_nonneg_right (abs_nearestEven_sub_le (x / 2 ^ e)) hpos.le]

/-- Rounding does not leave the binade but for the power of two at its end. -/
theorem significant_bounds (hbits : 0 < bits) {x : Rat} (hx : 0 < x) :
    (2 : Rat) ^ binade x ≤ significant bits x ∧ significant bits x ≤ 2 ^ (binade x + 1) := by
  rcases binade_spec hx with ⟨hlow, hhigh⟩
  rw [significant_of_pos hx]
  constructor
  · rw [← toMultiple_two_zpow (show binade x - bits + 1 ≤ binade x by omega)]
    exact toMultiple_mono _ hlow
  · rw [← toMultiple_two_zpow (show binade x - bits + 1 ≤ binade x + 1 by omega)]
    exact toMultiple_mono _ hhigh.le

theorem significant_nonneg (hbits : 0 < bits) (x : Rat) : 0 ≤ significant bits x := by
  rcases le_or_gt x 0 with hx | hx
  · exact (significant_of_nonpos hx).ge
  · exact (two_zpow_pos _).le.trans (significant_bounds hbits hx).1

/-- Rounding keeps the order. -/
theorem significant_mono (hbits : 0 < bits) {x y : Rat} (h : x ≤ y) :
    significant bits x ≤ significant bits y := by
  rcases le_or_gt x 0 with hx | hx
  · rw [significant_of_nonpos hx]
    exact significant_nonneg hbits y
  · have hy := hx.trans_le h
    rcases (binade_mono hx h).lt_or_eq with hlt | hEq
    · calc significant bits x ≤ 2 ^ (binade x + 1) := (significant_bounds hbits hx).2
        _ ≤ 2 ^ binade y := two_zpow_le_iff.mpr hlt
        _ ≤ significant bits y := (significant_bounds hbits hy).1
    · rw [significant_of_pos hx, significant_of_pos hy, hEq]
      exact toMultiple_mono _ h

/-- A number that has no more bits is not changed. -/
theorem significant_of_le {n : Nat} (hn : n < 2 ^ bits) (e : Int) :
    significant bits ((n : Rat) * 2 ^ e) = n * 2 ^ e := by
  rcases Nat.eq_zero_or_pos n with rfl | hpos
  · rw [Nat.cast_zero, zero_mul, significant_of_nonpos le_rfl]
  · have hx : (0 : Rat) < n * 2 ^ e := mul_pos (Nat.cast_pos.mpr hpos) (two_zpow_pos e)
    have hbinade : binade ((n : Rat) * 2 ^ e) < bits + e := by
      apply two_zpow_lt_iff.mp
      apply (binade_spec hx).1.trans_lt
      rw [zpow_add₀ (by norm_num), two_zpow_natCast]
      exact mul_lt_mul_of_pos_right (Nat.cast_lt.mpr hn) (two_zpow_pos e)
    rw [significant_of_pos hx]
    exact toMultiple_of_le (show _ ≤ e by omega) n

theorem significant_natCast {n : Nat} (hn : n < 2 ^ bits) : significant bits (n : Rat) = n := by
  simpa using significant_of_le hn 0

/-- The error is at most half a unit in the last place. -/
theorem abs_significant_sub_le {x : Rat} (hx : 0 ≤ x) :
    |significant bits x - x| ≤ x / 2 ^ bits := by
  rcases hx.eq_or_lt with rfl | hpos
  · rw [significant_of_nonpos le_rfl]
    norm_num
  · have herror := abs_toMultiple_sub_le (binade x - bits + 1) x
    have hunit : (2 : Rat) ^ (binade x - bits + 1) / 2 = 2 ^ binade x / 2 ^ bits := by
      rw [two_zpow_add_one, mul_div_cancel_left₀ _ (by norm_num), zpow_sub₀ (by norm_num),
        zpow_natCast]
    rw [significant_of_pos hpos]
    apply herror.trans
    rw [hunit]
    exact div_le_div_of_nonneg_right (binade_spec hpos).1 (by positivity)

end

end Rounding
end ConvSweep
