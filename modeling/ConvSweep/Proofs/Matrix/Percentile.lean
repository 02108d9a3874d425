import Mathlib
import ConvSweep.Proofs.Matrix.Sparse
import ConvSweep.Proofs.Order
import ConvSweep.Proofs.Rounding

/-!
# Percentages and drop counts

The bits of the numbers that are not negative count them: the next number has the
next bits, and the steps between them double with every power of two.  So the order of
places is the order of the rational values.  Every operation by which a percentage
becomes a count of entries keeps the order, and is exact where its result is an
integer that is not too large.
-/

namespace ConvSweep

open Rounding

/-!
## Values of single-precision numbers
-/

namespace Binary32

/-- How many times the step between two numbers has doubled before the bits `n`. -/
def doublings (n : Nat) : Nat :=
  n / 2 ^ 23 - 1

/-- The number with the bits `n`, which has no sign. -/
def stepValue (n : Nat) : Rat :=
  ((n - doublings n * 2 ^ 23 : Nat) : Rat) * 2 ^ ((doublings n : Int) - 149)

theorem stepValue_succ (n : Nat) :
    stepValue (n + 1) = stepValue n + 2 ^ ((doublings n : Int) - 149) := by
  have hnext : (doublings (n + 1) = doublings n) ∨
      (doublings (n + 1) = doublings n + 1 ∧ n + 1 = (doublings n + 2) * 2 ^ 23) := by
    rw [doublings, doublings]
    omega
  have hle : doublings n * 2 ^ 23 ≤ n := by
    rw [doublings]
    omega
  rcases hnext with hsame | ⟨hdouble, hn⟩
  · rw [stepValue, stepValue, hsame, Nat.succ_sub hle]
    push_cast
    ring
  · -- the last number before a power of two: twice as many steps of half the width
    have hlast : n - doublings n * 2 ^ 23 + 1 = 2 * 2 ^ 23 := by omega
    have hfirst : n + 1 - (doublings n + 1) * 2 ^ 23 = 2 ^ 23 := by omega
    have hlast' : ((n - doublings n * 2 ^ 23 : Nat) : Rat) + 1 = 2 * 2 ^ 23 := by
      exact_mod_cast hlast
    have hstep : (((doublings n + 1 : Nat) : Int) - 149) = (doublings n : Int) - 149 + 1 := by
      omega
    rw [stepValue, stepValue, hdouble, hfirst, hstep, two_zpow_add_one, Nat.cast_pow,
      Nat.cast_ofNat, ← add_one_mul, hlast']
    ring

theorem stepValue_zero : stepValue 0 = 0 := by
  simp [stepValue]

theorem stepValue_strictMono : StrictMono stepValue := by
  apply strictMono_nat_of_lt_succ
  intro n
  rw [stepValue_succ]
  exact lt_add_of_pos_right _ (two_zpow_pos _)

theorem decode_of_field {n : Nat} (hfield : n / 2 ^ 23 % 2 ^ 8 ≠ 255) :
    Decimal.BinaryFormat.binary32.decode n =
      if n / 2 ^ 23 % 2 ^ 8 = 0 then .finite (n / 2 ^ 31 % 2 == 1) (n % 2 ^ 23) (-149)
      else .finite (n / 2 ^ 31 % 2 == 1) (2 ^ 23 + n % 2 ^ 23)
        (-149 + (n / 2 ^ 23 % 2 ^ 8 : Nat) - 1) :=
  if_neg hfield

theorem field_of_isFinite {x : Binary32} (h : x.isFinite = true) :
    x.bits.toNat / 2 ^ 23 % 2 ^ 8 ≠ 255 := by
  rw [← toNat_exponentField]
  intro hlast
  rw [isFinite, bne_iff_ne, ← UInt32.toNat_inj.ne, hlast] at h
  exact h rfl

/-- The bits below the sign count the steps to the magnitude. -/
theorem stepValue_of_bits (n : Nat) :
    stepValue (n % 2 ^ 31) =
      if n / 2 ^ 23 % 2 ^ 8 = 0 then ((n % 2 ^ 23 : Nat) : Rat) * 2 ^ (-149 : Int)
      else ((2 ^ 23 + n % 2 ^ 23 : Nat) : Rat) *
        2 ^ ((-149 : Int) + (n / 2 ^ 23 % 2 ^ 8 : Nat) - 1) := by
  rw [stepValue]
  by_cases hzero : n / 2 ^ 23 % 2 ^ 8 = 0
  · have hdoublings : doublings (n % 2 ^ 31) = 0 := by
      rw [doublings]
      omega
    have hfraction : n % 2 ^ 31 - 0 * 2 ^ 23 = n % 2 ^ 23 := by omega
    rw [if_pos hzero, hdoublings, hfraction]
    rfl
  · have hdoublings : doublings (n % 2 ^ 31) = n / 2 ^ 23 % 2 ^ 8 - 1 := by
      rw [doublings]
      omega
    have hfraction : n % 2 ^ 31 - (n / 2 ^ 23 % 2 ^ 8 - 1) * 2 ^ 23 = 2 ^ 23 + n % 2 ^ 23 := by
      omega
    have hexponent : ((n / 2 ^ 23 % 2 ^ 8 - 1 : Nat) : Int) - 149 =
        -149 + (n / 2 ^ 23 % 2 ^ 8 : Nat) - 1 := by omega
    rw [if_neg hzero, hdoublings, hfraction, hexponent]

/-- The value at a place; the numbers below zero mirror those above. -/
def placeValue (k : Int) : Rat :=
  if k < 0 then -stepValue k.natAbs else stepValue k.natAbs

theorem toRat_eq_signed {x : Binary32} (hfinite : x.isFinite = true) :
    x.toRat = if x.isNegative then -stepValue (x.bits.toNat % 2 ^ 31)
      else stepValue (x.bits.toNat % 2 ^ 31) := by
  have hsign : (x.bits.toNat / 2 ^ 31 % 2 == 1) = x.isNegative := by
    have hlt := x.bits.toNat_lt
    rw [Bool.eq_iff_iff, beq_iff_eq, isNegative_iff]
    omega
  rw [toRat, decode_of_field (field_of_isFinite hfinite), stepValue_of_bits, hsign]
  by_cases hzero : x.bits.toNat / 2 ^ 23 % 2 ^ 8 = 0
  · rw [if_pos hzero, if_pos hzero]
  · rw [if_neg hzero, if_neg hzero]

theorem toRat_eq_placeValue {x : Binary32} (hfinite : x.isFinite = true) :
    x.toRat = placeValue x.place := by
  have hlt := x.bits.toNat_lt
  rw [toRat_eq_signed hfinite, placeValue]
  rcases rank_cases x with ⟨hnegative, hEq, _⟩ | ⟨hpositive, hEq, _⟩
  · have hmagnitude : x.place.natAbs = x.bits.toNat % 2 ^ 31 := by omega
    rw [if_pos ((isNegative_iff x).mpr hnegative), hmagnitude]
    by_cases hplace : x.place < 0
    · rw [if_pos hplace]
    · -- the zero with a sign
      have hzero : x.bits.toNat % 2 ^ 31 = 0 := by omega
      rw [if_neg hplace, hzero, stepValue_zero, neg_zero]
  · have hmagnitude : x.place.natAbs = x.bits.toNat % 2 ^ 31 := by omega
    rw [if_neg ((isNegative_iff x).not.mpr (by omega)), hmagnitude, if_neg (by omega)]

theorem placeValue_strictMono : StrictMono placeValue := by
  intro j k hjk
  rw [placeValue, placeValue]
  by_cases hk : k < 0
  · rw [if_pos (hjk.trans hk), if_pos hk]
    exact neg_lt_neg (stepValue_strictMono (by omega))
  · rw [if_neg hk]
    by_cases hj : j < 0
    · have hpos : stepValue 0 < stepValue j.natAbs := stepValue_strictMono (by omega)
      have hle : stepValue 0 ≤ stepValue k.natAbs := stepValue_strictMono.monotone (Nat.zero_le _)
      rw [stepValue_zero] at hpos hle
      rw [if_pos hj]
      linarith
    · rw [if_neg hj]
      exact stepValue_strictMono (by omega)

/-- The value of a finite number that is not below zero; a zero may have a sign. -/
theorem toRat_eq_stepValue {x : Binary32} (hfinite : x.isFinite = true) (hplace : 0 ≤ x.place) :
    x.toRat = stepValue x.place.toNat := by
  have hnat : x.place.natAbs = x.place.toNat := by omega
  rw [toRat_eq_placeValue hfinite, placeValue, if_neg (not_lt.mpr hplace), hnat]

theorem isFinite_of_place {x : Binary32} (hplace : 0 ≤ x.place) (hlt : x.place < 255 * 2 ^ 23) :
    x.isFinite = true := by
  rw [isFinite, bne_iff_ne]
  intro hlast
  have hfield := toNat_exponentField x
  rw [hlast] at hfield
  have hfield : (255 : Nat) = x.bits.toNat / 2 ^ 23 % 2 ^ 8 := hfield
  have hcases := rank_cases x
  omega

end Binary32

/-!
## Percentages
-/

namespace Percentile

/-- The value of a percentage is found by counting the numbers before it. -/
theorem toRat_eq_stepValue (p : Percentile) :
    p.value.toRat = Binary32.stepValue p.value.place.toNat ∧
      0 ≤ p.value.place ∧ p.value.place ≤ 0x42c80000 := by
  have hlow : (0 : Int) ≤ p.value.place := (Binary32.le_iff.mp p.nonneg).2.2
  have hhigh : p.value.place ≤ 0x42c80000 := (Binary32.le_iff.mp p.le_hundred).2.2
  have hfinite := Binary32.isFinite_of_place hlow (Int.lt_of_le_of_lt hhigh (by decide))
  exact ⟨Binary32.toRat_eq_stepValue hfinite hlow, hlow, hhigh⟩

theorem toRat_mono {p q : Percentile} (h : p.value.le q.value = true) :
    p.value.toRat ≤ q.value.toRat := by
  rw [p.toRat_eq_stepValue.1, q.toRat_eq_stepValue.1]
  exact Binary32.stepValue_strictMono.monotone (Int.toNat_le_toNat (Binary32.le_iff.mp h).2.2)

theorem stepValue_hundred : Binary32.stepValue 0x42c80000 = 100 := by
  norm_num [Binary32.stepValue, Binary32.doublings]

theorem toRat_nonneg (p : Percentile) : 0 ≤ p.value.toRat := by
  rw [p.toRat_eq_stepValue.1, ← Binary32.stepValue_zero]
  exact Binary32.stepValue_strictMono.monotone (Nat.zero_le _)

theorem toRat_le (p : Percentile) : p.value.toRat ≤ 100 := by
  rw [p.toRat_eq_stepValue.1, ← stepValue_hundred]
  exact Binary32.stepValue_strictMono.monotone (Int.toNat_le_toNat p.toRat_eq_stepValue.2.2)

theorem toRat_of_beq_zero {p : Percentile} (h : (p.value == 0) = true) : p.value.toRat = 0 := by
  have hplace : p.value.place = 0 := (Binary32.beq_iff.mp h).2.2
  rw [p.toRat_eq_stepValue.1, hplace]
  exact Binary32.stepValue_zero

theorem toRat_of_beq_hundred {p : Percentile} (h : (p.value == ⟨0x42c80000⟩) = true) :
    p.value.toRat = 100 := by
  have hplace : p.value.place = 0x42c80000 := (Binary32.beq_iff.mp h).2.2
  rw [p.toRat_eq_stepValue.1, hplace]
  exact stepValue_hundred

/-!
## How many entries are dropped
-/

/-- The millionths of a part of a length, with every operation rounded. -/
def millionthsOf (percent : Rat) (length : Nat) : Rat :=
  rounded (rounded (rounded (percent * rounded length) / 100) * 1000000)

/-- The number of entries that the part amounts to. -/
def partOf (percent : Rat) (length : Nat) : Int :=
  (rounded ((nearestUp (millionthsOf percent length) : Rat) / 1000000)).ceil

theorem dropCount_eq (p : Percentile) (length : Nat) :
    p.dropCount length = min (partOf p.value.toRat length).toNat length := rfl

theorem rounded_mono {x y : Rat} (h : x ≤ y) : rounded x ≤ rounded y :=
  significant_mono (by decide) h

theorem rounded_natCast {n : Nat} (h : n < 2 ^ 53) : rounded n = n :=
  significant_natCast h

theorem rounded_nonneg (x : Rat) : 0 ≤ rounded x :=
  significant_nonneg (by decide) x

theorem abs_rounded_sub_le {x : Rat} (hx : 0 ≤ x) : |rounded x - x| ≤ x / 2 ^ 53 :=
  abs_significant_sub_le hx

theorem partOf_mono {x y : Rat} (h : x ≤ y) (length : Nat) :
    partOf x length ≤ partOf y length := by
  have hlength : 0 ≤ rounded (length : Rat) := rounded_nonneg _
  have hshare : rounded (x * rounded length) / 100 ≤ rounded (y * rounded length) / 100 :=
    div_le_div_of_nonneg_right (rounded_mono (mul_le_mul_of_nonneg_right h hlength)) (by norm_num)
  have hscaled : rounded (rounded (x * rounded length) / 100) * 1000000 ≤
      rounded (rounded (y * rounded length) / 100) * 1000000 :=
    mul_le_mul_of_nonneg_right (rounded_mono hshare) (by norm_num)
  have hmillionths := Int.cast_le (R := Rat).mpr (nearestUp_mono (rounded_mono hscaled))
  have hparts := rounded_mono (div_le_div_of_nonneg_right hmillionths (show (0 : Rat) ≤ 1000000 by
    norm_num))
  rw [partOf, Rat.ceil_le_iff]
  exact hparts.trans Rat.le_ceil

/-- A part that is an integer is found without any rounding. -/
theorem partOf_of_mul_eq {percent : Rat} {length n : Nat} (h : percent * length = 100 * n)
    (hlength : length < 2 ^ 32) (hn : n < 2 ^ 32) : partOf percent length = n := by
  have hexact : rounded (length : Rat) = length := rounded_natCast (by omega)
  have hpart : rounded (n : Rat) = n := rounded_natCast (by omega)
  have hproduct : rounded (100 * (n : Rat)) = 100 * n := by
    rw [← Nat.cast_ofNat, ← Nat.cast_mul]
    exact rounded_natCast (by omega)
  have hmillionths : rounded ((n : Rat) * 1000000) = ((n * 1000000 : Nat) : Int) := by
    rw [← Nat.cast_ofNat, ← Nat.cast_mul, Int.cast_natCast]
    exact rounded_natCast (by omega)
  have hquotient : (((n * 1000000 : Nat) : Int) : Rat) / 1000000 = n := by
    push_cast
    exact mul_div_cancel_right₀ _ (by norm_num)
  rw [partOf, millionthsOf, hexact, h, hproduct, mul_div_cancel_left₀ _ (by norm_num), hpart,
    hmillionths, nearestUp_intCast, hquotient, hpart]
  exact Rat.ceil_intCast n

theorem partOf_hundred {length : Nat} (h : length < 2 ^ 32) : partOf 100 length = length :=
  partOf_of_mul_eq rfl h h

theorem partOf_zero {length : Nat} (h : length < 2 ^ 32) : partOf 0 length = 0 :=
  partOf_of_mul_eq (n := 0) (by rw [zero_mul, Nat.cast_zero, mul_zero]) h (by decide)

/-- A part is not more than the whole, so the length does not cut it off. -/
theorem dropCount_eq_partOf (p : Percentile) {length : Nat} (h : length < 2 ^ 32) :
    (p.dropCount length : Int) = partOf p.value.toRat length := by
  have hlow := partOf_mono p.toRat_nonneg length
  have hhigh := partOf_mono p.toRat_le length
  rw [partOf_hundred h] at hhigh
  rw [partOf_zero h] at hlow
  rw [dropCount_eq]
  omega

theorem dropCount_mono {p q : Percentile} (h : p.value.le q.value = true) (length : Nat) :
    p.dropCount length ≤ q.dropCount length := by
  have hparts := Int.toNat_le_toNat (partOf_mono (toRat_mono h) length)
  rw [dropCount_eq, dropCount_eq]
  omega

theorem dropCount_hundred {p : Percentile} (h : (p.value == ⟨0x42c80000⟩) = true) {length : Nat}
    (hlength : length < 2 ^ 32) : p.dropCount length = length := by
  have hpart := p.dropCount_eq_partOf hlength
  rw [toRat_of_beq_hundred h, partOf_hundred hlength] at hpart
  exact_mod_cast hpart

/-!
## Errors of the count
-/

/-- The percentage of a length, without any rounding. -/
def share (p : Percentile) (length : Nat) : Rat :=
  p.value.toRat * length / 100

theorem share_nonneg (p : Percentile) (length : Nat) : 0 ≤ p.share length :=
  div_nonneg (mul_nonneg p.toRat_nonneg (Nat.cast_nonneg _)) (by norm_num)

theorem share_le (p : Percentile) (length : Nat) : p.share length ≤ length := by
  have hle := mul_le_mul_of_nonneg_right p.toRat_le (Nat.cast_nonneg (α := Rat) length)
  rw [share]
  linarith

/-- Rounding to six decimals takes away what is less than half a millionth, and nothing else. -/
theorem partOf_le_iff {percent : Rat} {length n : Nat} (hn : n < 2 ^ 32) :
    partOf percent length ≤ n ↔ millionthsOf percent length < n * 1000000 + 1 / 2 := by
  have hcast : ((n * 1000000 : Int) : Rat) = n * 1000000 := by push_cast; rfl
  rw [partOf, Rat.ceil_le_iff, Int.cast_natCast, ← hcast, ← nearestUp_le_iff]
  constructor
  · intro hle
    by_contra hlt
    -- the next millionth is too far away to be rounded to an integer
    have hnext : (n : Rat) * 1000000 + 1 ≤ nearestUp (millionthsOf percent length) := by
      exact_mod_cast not_le.mp hlt
    have hmono := rounded_mono (div_le_div_of_nonneg_right hnext (show (0 : Rat) ≤ 1000000 by
      norm_num))
    have hnonneg : (0 : Rat) ≤ (n * 1000000 + 1) / 1000000 := by positivity
    have herror := (abs_le.mp (abs_rounded_sub_le hnonneg)).1
    have hsmall : (n : Rat) < 2 ^ 32 := by exact_mod_cast hn
    linarith
  · intro hle
    have hquotient : (nearestUp (millionthsOf percent length) : Rat) / 1000000 ≤ n := by
      rw [div_le_iff₀ (by norm_num)]
      exact_mod_cast hle
    calc rounded ((nearestUp (millionthsOf percent length) : Rat) / 1000000) ≤ rounded n :=
          rounded_mono hquotient
      _ = n := rounded_natCast (by omega)

/-- Three roundings are off by three units in the last place, and not by four. -/
theorem abs_millionthsOf_sub_le (p : Percentile) {length : Nat} (hlength : length < 2 ^ 32) :
    |millionthsOf p.value.toRat length - p.share length * 1000000| ≤
      p.share length * 1000000 / 2 ^ 51 := by
  have hexact : rounded (length : Rat) = length := rounded_natCast (by omega)
  have hx : 0 ≤ p.value.toRat * (length : Rat) := mul_nonneg p.toRat_nonneg (Nat.cast_nonneg _)
  rw [millionthsOf, share, hexact]
  generalize p.value.toRat * (length : Rat) = x at hx
  have hy := rounded_nonneg x
  have hz := rounded_nonneg (rounded x / 100)
  have hfirst := abs_le.mp (abs_rounded_sub_le hx)
  have hsecond := abs_le.mp (abs_rounded_sub_le
    (div_nonneg hy (show (0 : Rat) ≤ 100 by norm_num)))
  have hthird := abs_le.mp (abs_rounded_sub_le
    (mul_nonneg hz (show (0 : Rat) ≤ 1000000 by norm_num)))
  rw [abs_le]
  constructor <;> linarith

theorem dropCount_le_iff (p : Percentile) {length n : Nat} (hlength : length < 2 ^ 32)
    (hn : n < 2 ^ 32) : p.dropCount length ≤ n ↔
      millionthsOf p.value.toRat length < n * 1000000 + 1 / 2 := by
  rw [← partOf_le_iff hn, ← p.dropCount_eq_partOf hlength, Int.ofNat_le]

theorem dropCount_le_of_share (p : Percentile) {length n : Nat} (hlength : length < 2 ^ 32)
    (hn : n < 2 ^ 32) (h : p.share length * (1 + 1 / 2 ^ 51) < n + 1 / 2000000) :
    p.dropCount length ≤ n := by
  have herror := abs_le.mp (p.abs_millionthsOf_sub_le hlength)
  rw [p.dropCount_le_iff hlength hn]
  linarith

theorem lt_dropCount_of_share (p : Percentile) {length n : Nat} (hlength : length < 2 ^ 32)
    (hn : n < 2 ^ 32) (h : n + 1 / 2000000 ≤ p.share length * (1 - 1 / 2 ^ 51)) :
    n < p.dropCount length := by
  have herror := abs_le.mp (p.abs_millionthsOf_sub_le hlength)
  rw [← not_le, p.dropCount_le_iff hlength hn]
  linarith

/-- A share that keeps away from the integers is rounded up. -/
theorem dropCount_eq_succ (p : Percentile) {length n : Nat} (hlength : length < 2 ^ 32)
    (hlow : (n : Rat) + 1 / 2 ^ 17 ≤ p.share length)
    (hhigh : p.share length ≤ n + 1 - 1 / 2 ^ 17) : p.dropCount length = n + 1 := by
  have hshare := p.share_le length
  have hlong : (length : Rat) ≤ 2 ^ 32 := by exact_mod_cast hlength.le
  have hlt : n < length := by
    have hcast : (n : Rat) < length := by linarith
    exact_mod_cast hcast
  have hbelow : n < p.dropCount length :=
    p.lt_dropCount_of_share hlength (by omega) (by linarith)
  have habove : p.dropCount length ≤ n + 1 := by
    apply p.dropCount_le_of_share hlength (by omega)
    push_cast
    linarith
  omega

/-- The count of the share, which is known up to its rounding errors. -/
theorem dropCount_between (p : Percentile) {length : Nat} (hlength : length < 2 ^ 32) :
    ⌈p.share length * (1 - 1 / 2 ^ 50) - 1 / 2000000⌉₊ ≤ p.dropCount length ∧
      p.dropCount length ≤ ⌈p.share length * (1 + 1 / 2 ^ 50) - 1 / 2000000⌉₊ := by
  have hcount := p.dropCount_le length
  have hshare := p.share_nonneg length
  constructor
  · rw [Nat.ceil_le]
    by_contra hlt
    exact Nat.lt_irrefl _ (p.lt_dropCount_of_share hlength (Nat.lt_of_le_of_lt hcount hlength)
      (by linarith))
  · have hceil := Nat.le_ceil (p.share length * (1 + 1 / 2 ^ 50) - 1 / 2000000)
    generalize ⌈p.share length * (1 + 1 / 2 ^ 50) - 1 / 2000000⌉₊ = n at hceil
    by_cases hn : n < 2 ^ 32
    · apply p.dropCount_le_of_share hlength hn
      rcases hshare.eq_or_lt with hzero | hpos
      · rw [← hzero, zero_mul]
        positivity
      · linarith
    · omega

/-!
## Rows without a visible error
-/

/-- A percentage is an integer of 24 bits over a power of two. -/
theorem exists_dyadic (p : Percentile) : ∃ k q : Nat, p.value.toRat = k / 2 ^ q ∧ k < 2 ^ 24 ∧
    17 ≤ q ∧ (1 / 16 ≤ p.value.toRat → q ≤ 27) := by
  rcases p.toRat_eq_stepValue with ⟨hvalue, hlow, hhigh⟩
  generalize hn : p.value.place.toNat = n at hvalue
  have hdoublings : Binary32.doublings n ≤ 132 := by
    rw [Binary32.doublings]
    omega
  refine ⟨n - Binary32.doublings n * 2 ^ 23, 149 - Binary32.doublings n, ?_, ?_, ?_, ?_⟩
  · have hexponent : (Binary32.doublings n : Int) - 149 =
        -((149 - Binary32.doublings n : Nat) : Int) := by
      omega
    rw [hvalue, Binary32.stepValue, hexponent, zpow_neg, zpow_natCast, div_eq_mul_inv]
  · rw [Binary32.doublings]
    omega
  · omega
  · intro hle
    have hsixteenth : Binary32.stepValue 0x3d800000 = 1 / 16 := by
      norm_num [Binary32.stepValue, Binary32.doublings]
    rw [hvalue, ← hsixteenth, Binary32.stepValue_strictMono.le_iff_le] at hle
    rw [Binary32.doublings]
    omega

theorem share_of_dyadic {p : Percentile} {k q : Nat} (h : p.value.toRat = k / 2 ^ q)
    (length : Nat) : p.share length * 1000000 = ((k * length : Nat) : Rat) / 2 ^ q * 10000 := by
  rw [share, h]
  push_cast
  ring

theorem not_five_dvd_mul_two_pow {m : Nat} (h : ¬ 5 ∣ m) (r : Nat) : ¬ 5 ∣ m * 2 ^ r := by
  intro hdvd
  rcases (Nat.Prime.dvd_mul Nat.prime_five).mp hdvd with hm | htwo
  · exact h hm
  · exact absurd (Nat.prime_five.dvd_of_dvd_pow htwo) (by decide)

/-- A multiple of a unit that is not zero is at least the unit. -/
theorem le_abs_mul_intCast {unit : Rat} (hunit : 0 ≤ unit) {z : Int} (hz : z ≠ 0) :
    unit ≤ |unit * z| := by
  have hone : (1 : Rat) ≤ |(z : Rat)| := by exact_mod_cast Int.one_le_abs hz
  rw [abs_mul, abs_of_nonneg hunit]
  exact le_mul_of_one_le_right hunit hone

/-- Five divides the millionths that two powers of two leave, so no part is half a millionth more
than an integer; the next one is sixteen units away. -/
theorem le_abs_part_sub (m n : Nat) {q : Nat} (hq : 5 ≤ q) :
    16 / 2 ^ q ≤ |(m : Rat) / 2 ^ q * 10000 - (n * 1000000 + 1 / 2)| := by
  obtain ⟨r, rfl⟩ := Nat.exists_eq_add_of_le hq
  have hunits : (m : Rat) / 2 ^ (5 + r) * 10000 - (n * 1000000 + 1 / 2) =
      16 / 2 ^ (5 + r) * ((m * 625 - (n * 2000000 + 1) * 2 ^ r : Int) : Rat) := by
    push_cast
    rw [pow_add]
    field_simp
    ring
  rw [hunits]
  apply le_abs_mul_intCast (by positivity)
  intro hzero
  have hEq : m * 625 = (n * 2000000 + 1) * 2 ^ r := by
    have hcast := sub_eq_zero.mp hzero
    exact_mod_cast hcast
  exact not_five_dvd_mul_two_pow (show ¬ 5 ∣ n * 2000000 + 1 by omega) r ⟨m * 125, by omega⟩

/-- Up to this length the roundings do not reach the next number that could be rounded otherwise. -/
theorem dropCount_eq_ceil (p : Percentile) {length : Nat} (hlength : length ≤ 200000) :
    p.dropCount length = ⌈p.share length - 1 / 2000000⌉₊ := by
  apply eq_of_forall_ge_iff
  intro n
  have hlong : length < 2 ^ 32 := by omega
  rw [Nat.ceil_le]
  by_cases hn : n < 2 ^ 32
  · obtain ⟨k, q, hvalue, hk, hq, _⟩ := p.exists_dyadic
    have hpow : (0 : Rat) < 2 ^ q := by positivity
    have hshare := share_of_dyadic hvalue length
    have hgap := le_abs_part_sub (k * length) n (show 5 ≤ q by omega)
    have herror := abs_le.mp (p.abs_millionthsOf_sub_le hlong)
    have hsmall : p.share length * 1000000 / 2 ^ 51 < 16 / 2 ^ q := by
      have hproduct : ((k * length : Nat) : Rat) * 10000 < 16 * 2 ^ 51 := by
        have hnat : k * length ≤ 2 ^ 24 * 200000 := Nat.mul_le_mul hk.le hlength
        exact_mod_cast (show k * length * 10000 < 16 * 2 ^ 51 by omega)
      rw [hshare, div_lt_div_iff₀ (by norm_num) hpow, div_mul_eq_mul_div,
        div_mul_cancel₀ _ hpow.ne']
      exact hproduct
    rw [← hshare] at hgap
    rw [p.dropCount_le_iff hlong hn]
    rcases le_abs.mp hgap with habove | hbelow
    · exact ⟨fun hle => by linarith, fun hle => by linarith⟩
    · exact ⟨fun hle => by linarith, fun hle => by linarith⟩
  · have hle : (length : Rat) ≤ n := by exact_mod_cast (show length ≤ n by omega)
    have hcount := p.dropCount_le length
    have hshare := p.share_le length
    exact ⟨fun _ => by linarith, fun _ => by omega⟩

end Percentile
end ConvSweep
