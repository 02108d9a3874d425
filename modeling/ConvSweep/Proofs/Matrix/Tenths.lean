import Mathlib
import ConvSweep.Proofs.Matrix.Percentile

/-!
# Percentages with one decimal

Single precision represents most tenths only nearly, and a row multiplies the error of
its percentage by its length.  Rounding the share to six decimals hides the error as
long as it stays below half a millionth of an entry.  A share that is an integer is
counted as one entry more from then on; the other shares are a thousandth of an entry
away from the integers, which takes much longer rows to reach.  The multiples of a half
are represented exactly, so that their counts are exact for every length.
-/

namespace ConvSweep

/-!
## Nearest numbers
-/

namespace Binary32

/-- No finite number is closer to the rational one. -/
structure Nearest (x : Binary32) (r : Rat) : Prop where
  finite : x.isFinite = true
  closest : ∀ y : Binary32, y.isFinite = true → |x.toRat - r| ≤ |y.toRat - r|

/-- The steps reach all integers of 24 bits, scaled by a power of two. -/
theorem exists_stepValue (s : Nat) {k : Nat} (hk : k < 2 ^ 24) :
    ∃ n < (s + 2) * 2 ^ 23, stepValue n = k * 2 ^ ((s : Int) - 149) := by
  induction s generalizing k with
  | zero =>
      have hdoublings : doublings k = 0 := by
        rw [doublings]
        omega
      exact ⟨k, by omega, by rw [stepValue, hdoublings, Nat.zero_mul, Nat.sub_zero]⟩
  | succ s ih =>
      by_cases hleading : k < 2 ^ 23
      · -- one bit is free, so the integer can be doubled instead of the step
        rcases ih (show 2 * k < 2 ^ 24 by omega) with ⟨n, hn, hvalue⟩
        refine ⟨n, hn.trans_le (Nat.mul_le_mul_right _ (by omega)), ?_⟩
        have hexponent : ((s + 1 : Nat) : Int) - 149 = (s : Int) - 149 + 1 := by omega
        rw [hvalue, hexponent, Rounding.two_zpow_add_one]
        push_cast
        ring
      · have hdoublings : doublings ((s + 1) * 2 ^ 23 + k) = s + 1 := by
          rw [doublings]
          omega
        refine ⟨(s + 1) * 2 ^ 23 + k, by omega, ?_⟩
        rw [stepValue, hdoublings, Nat.add_sub_cancel_left]

/-- Finite numbers without a sign are given by their places. -/
theorem exists_toRat {n : Nat} (hn : n < 255 * 2 ^ 23) :
    ∃ y : Binary32, y.isFinite = true ∧ y.toRat = stepValue n := by
  have hbits : (UInt32.ofNat n).toNat = n := UInt32.toNat_ofNat_of_lt' (by
    show n < 2 ^ 32
    omega)
  have hplace : (⟨UInt32.ofNat n⟩ : Binary32).place = n := by
    have hcases := rank_cases ⟨UInt32.ofNat n⟩
    dsimp only at hcases
    omega
  have hfinite : (⟨UInt32.ofNat n⟩ : Binary32).isFinite = true :=
    isFinite_of_place (by omega) (by omega)
  refine ⟨⟨UInt32.ofNat n⟩, hfinite, ?_⟩
  rw [toRat_eq_stepValue hfinite (by omega), hplace, Int.toNat_natCast]

theorem toRat_nonpos {y : Binary32} (hfinite : y.isFinite = true) (hplace : y.place < 0) :
    y.toRat ≤ 0 := by
  have hmono := placeValue_strictMono.monotone hplace.le
  rw [toRat_eq_placeValue hfinite]
  exact hmono.trans stepValue_zero.le

/-- A number is the nearest one if its two neighbours are not nearer. -/
theorem nearest_of_neighbours {x : Binary32} {n : Nat} {r : Rat} (hfinite : x.isFinite = true)
    (hplace : x.place = n + 1) (hbelow : |stepValue (n + 1) - r| ≤ r - stepValue n)
    (habove : |stepValue (n + 1) - r| ≤ stepValue (n + 2) - r) : x.Nearest r where
  finite := hfinite
  closest y hy := by
    have hvalue : x.toRat = stepValue (n + 1) := by
      rw [toRat_eq_stepValue hfinite (by omega), hplace]
      rfl
    have hless : y.toRat ≤ stepValue n → |stepValue (n + 1) - r| ≤ |y.toRat - r| := by
      intro hle
      exact hbelow.trans ((by linarith : r - stepValue n ≤ -(y.toRat - r)).trans (neg_le_abs _))
    rw [hvalue]
    by_cases hsign : y.place < 0
    · have hzero : (0 : Rat) ≤ stepValue n := by
        rw [stepValue]
        positivity
      exact hless ((toRat_nonpos hy hsign).trans hzero)
    · have hstep := toRat_eq_stepValue hy (not_lt.mp hsign)
      rcases lt_trichotomy y.place.toNat (n + 1) with hlt | hEq | hgt
      · apply hless
        rw [hstep]
        exact stepValue_strictMono.monotone (Nat.le_of_lt_succ hlt)
      · rw [hstep, hEq]
      · have hle := stepValue_strictMono.monotone hgt
        rw [hstep]
        exact habove.trans ((sub_le_sub_right hle r).trans (le_abs_self _))

/-- A number whose neighbours are farther away is the only nearest one. -/
theorem Nearest.toRat_eq {x : Binary32} {n : Nat} {r : Rat} (h : x.Nearest r)
    (hplace : 0 ≤ x.place) (hn : n + 1 < 255 * 2 ^ 23)
    (hbelow : |stepValue (n + 1) - r| < r - stepValue n)
    (habove : |stepValue (n + 1) - r| < stepValue (n + 2) - r) : x.toRat = stepValue (n + 1) := by
  rcases exists_toRat hn with ⟨y, hy, hvalue⟩
  have hclosest := h.closest y hy
  have hstep := toRat_eq_stepValue h.finite hplace
  rw [hvalue] at hclosest
  rcases lt_trichotomy x.place.toNat (n + 1) with hlt | hEq | hgt
  · have hle := stepValue_strictMono.monotone (Nat.le_of_lt_succ hlt)
    rw [← hstep] at hle
    linarith [neg_le_abs (x.toRat - r)]
  · rw [hstep, hEq]
  · have hle := stepValue_strictMono.monotone hgt
    rw [← hstep] at hle
    linarith [le_abs_self (x.toRat - r)]

end Binary32

namespace Percentile

variable {p : Percentile} {t length : Nat}

theorem abs_sub_le_of_nearest {r : Rat} (h : p.value.Nearest r) {s k : Nat} (hs : s ≤ 253)
    (hk : k < 2 ^ 24) : |p.value.toRat - r| ≤ |k * 2 ^ ((s : Int) - 149) - r| := by
  rcases Binary32.exists_stepValue s hk with ⟨n, hn, hvalue⟩
  rcases Binary32.exists_toRat (hn.trans_le (Nat.mul_le_mul_right _ (show s + 2 ≤ 255 by omega)))
    with ⟨y, hy, hstep⟩
  rw [← hvalue, ← hstep]
  exact h.closest y hy

theorem toRat_of_half (h : p.value.Nearest (t / 10)) (ht : t ≤ 1000) (hhalf : 5 ∣ t) :
    p.value.toRat = t / 10 := by
  obtain ⟨j, rfl⟩ := hhalf
  have hexact : (j : Rat) * 2 ^ (((148 : Nat) : Int) - 149) = ((5 * j : Nat) : Rat) / 10 := by
    rw [show ((148 : Nat) : Int) - 149 = -1 by norm_num, zpow_neg_one]
    push_cast
    ring
  have hdistance := abs_sub_le_of_nearest h (show 148 ≤ 253 by decide) (show j < 2 ^ 24 by omega)
  rw [hexact, sub_self, abs_zero] at hdistance
  exact sub_eq_zero.mp (abs_nonpos_iff.mp hdistance)

/-- Below 128 the numbers are at least as dense as the multiples of `2 ^ (-17)`. -/
theorem abs_toRat_sub_le (h : p.value.Nearest (t / 10)) (ht : t ≤ 1000) :
    |p.value.toRat - t / 10| ≤ 1 / 2 ^ 18 := by
  have hdistance := abs_sub_le_of_nearest h (show 132 ≤ 253 by decide)
    (show (t * 2 ^ 17 + 5) / 10 < 2 ^ 24 by omega)
  have hlow : (((t * 2 ^ 17 + 5) / 10 : Nat) : Rat) * 10 ≤ t * 2 ^ 17 + 5 := by
    exact_mod_cast Nat.div_mul_le_self (t * 2 ^ 17 + 5) 10
  have hhigh : (t : Rat) * 2 ^ 17 ≤ ((t * 2 ^ 17 + 5) / 10 : Nat) * 10 + 5 := by
    exact_mod_cast (show t * 2 ^ 17 ≤ (t * 2 ^ 17 + 5) / 10 * 10 + 5 by omega)
  refine hdistance.trans ?_
  rw [show ((132 : Nat) : Int) - 149 = -17 by norm_num, abs_le]
  generalize (((t * 2 ^ 17 + 5) / 10 : Nat) : Rat) = k at hlow hhigh
  norm_num at hlow hhigh ⊢
  constructor <;> linarith

/-!
## Counts
-/

/-- How much the share of a row differs from that of the exact percentage. -/
def drift (p : Percentile) (t length : Nat) : Rat :=
  p.share length - t * length / 1000

theorem drift_eq (p : Percentile) (t length : Nat) :
    p.drift t length = (p.value.toRat - t / 10) * length / 100 := by
  rw [drift, share]
  ring

theorem abs_drift_le (h : p.value.Nearest (t / 10)) (ht : t ≤ 1000) (length : Nat) :
    |p.drift t length| ≤ length / 100 / 2 ^ 18 := by
  have hlength : (0 : Rat) ≤ length / 100 := by positivity
  have hle := mul_le_mul_of_nonneg_right (abs_toRat_sub_le h ht) hlength
  rw [drift_eq, mul_div_assoc, abs_mul, abs_of_nonneg hlength]
  linarith

/-- The exact share is an integer, or at least a thousandth away from the integers. -/
theorem exact_cases (t length : Nat) :
    (∃ n, t * length = 1000 * n ∧ ⌈(t * length : Rat) / 1000⌉₊ = n) ∨
      ∃ n : Nat, ¬ 1000 ∣ t * length ∧ (n : Rat) + 1 / 1000 ≤ t * length / 1000 ∧
        t * length / 1000 ≤ (n : Rat) + 1 - 1 / 1000 ∧ ⌈(t * length : Rat) / 1000⌉₊ = n + 1 := by
  by_cases hwhole : 1000 ∣ t * length
  · obtain ⟨n, hn⟩ := hwhole
    refine Or.inl ⟨n, hn, ?_⟩
    rw [← Nat.cast_mul, hn, Nat.cast_mul, Nat.cast_ofNat, mul_div_cancel_left₀ _ (by norm_num)]
    exact Nat.ceil_natCast n
  · have hlow : ((t * length / 1000 : Nat) : Rat) * 1000 + 1 ≤ t * length := by
      exact_mod_cast (show t * length / 1000 * 1000 + 1 ≤ t * length by omega)
    have hhigh : (t * length : Rat) + 1 ≤ ((t * length / 1000 : Nat) + 1) * 1000 := by
      exact_mod_cast (show t * length + 1 ≤ (t * length / 1000 + 1) * 1000 by omega)
    generalize t * length / 1000 = n at hlow hhigh
    refine Or.inr ⟨n, hwhole, by linarith, by linarith, ?_⟩
    rw [Nat.ceil_eq_iff (Nat.succ_ne_zero n)]
    push_cast
    constructor <;> linarith

/-- The multiples of a half are counted without any error. -/
theorem dropCount_of_half (h : p.value.Nearest (t / 10)) (ht : t ≤ 1000) (hhalf : 5 ∣ t)
    (hlength : length < 2 ^ 32) : p.dropCount length = ⌈(t * length : Rat) / 1000⌉₊ := by
  have hvalue := toRat_of_half h ht hhalf
  rcases exact_cases t length with ⟨n, hn, hceil⟩ | ⟨n, _, hlow, hhigh, hceil⟩
  · have hle : t * length ≤ 1000 * length := Nat.mul_le_mul_right length ht
    have hmul : p.value.toRat * length = 100 * n := by
      have hcast : (t : Rat) * length = 1000 * n := by exact_mod_cast hn
      rw [hvalue]
      linarith
    have hcount := p.dropCount_eq_partOf hlength
    rw [partOf_of_mul_eq hmul hlength (by omega)] at hcount
    rw [hceil]
    exact_mod_cast hcount
  · have hshare : p.share length = t * length / 1000 := by
      rw [share, hvalue]
      ring
    rw [hceil]
    apply p.dropCount_eq_succ hlength
    · rw [hshare]
      linarith
    · rw [hshare]
      linarith

/-- The other tenths are not numbers of single precision, so that there is a drift. -/
theorem exists_dyadic_of_tenth (h : p.value.Nearest (t / 10)) (ht : t ≤ 1000) (htenth : ¬ 5 ∣ t) :
    ∃ k q : Nat, p.value.toRat = k / 2 ^ q ∧ k < 2 ^ 24 ∧ 17 ≤ q ∧ q ≤ 27 ∧
      ∀ length, length * 1000 / 2 ^ q ≤ |p.drift t length * 1000000| := by
  obtain ⟨k, q, hvalue, hk, hq, hlarge⟩ := p.exists_dyadic
  have hpow : (0 : Rat) < 2 ^ q := by positivity
  have hdistance := abs_le.mp (abs_toRat_sub_le h ht)
  have hpos : (1 : Rat) ≤ t := by exact_mod_cast (show 1 ≤ t by omega)
  refine ⟨k, q, hvalue, hk, hq, hlarge (by linarith), ?_⟩
  intro length
  have hunits : p.drift t length * 1000000 =
      length * 1000 / 2 ^ q * ((10 * k - t * 2 ^ q : Int) : Rat) := by
    rw [drift_eq, hvalue]
    push_cast
    field_simp
    ring
  rw [hunits]
  apply le_abs_mul_intCast (by positivity)
  intro hzero
  have hEq : 10 * k = t * 2 ^ q := by
    have hcast := sub_eq_zero.mp hzero
    exact_mod_cast hcast
  exact not_five_dvd_mul_two_pow htenth q ⟨2 * k, by omega⟩

/-- A drift that is not zero outweighs the roundings, however long the row is. -/
theorem roundings_le_drift {k q : Nat} (hvalue : p.value.toRat = k / 2 ^ q) (hk : k < 2 ^ 24)
    (hdrift : length * 1000 / 2 ^ q ≤ |p.drift t length * 1000000|) :
    p.share length * 1000000 / 2 ^ 51 ≤ |p.drift t length * 1000000| / 2 ^ 23 := by
  have hproduct : ((k * length : Nat) : Rat) * 10000 ≤ length * 1000 * 2 ^ 28 := by
    have hnat : k * length ≤ 2 ^ 24 * length := Nat.mul_le_mul_right length hk.le
    exact_mod_cast (show k * length * 10000 ≤ length * 1000 * 2 ^ 28 by omega)
  calc p.share length * 1000000 / 2 ^ 51
      = ((k * length : Nat) : Rat) * 10000 / 2 ^ q / 2 ^ 51 := by
        rw [share_of_dyadic hvalue, div_mul_eq_mul_div]
    _ ≤ (length : Rat) * 1000 * 2 ^ 28 / 2 ^ q / 2 ^ 51 := by gcongr
    _ = (length : Rat) * 1000 / 2 ^ q / 2 ^ 23 := by ring
    _ ≤ |p.drift t length * 1000000| / 2 ^ 23 := by gcongr

/-- A relative error does not reach a half if the number keeps away from it. -/
theorem lt_half_iff {u m n : Rat} (herror : |m - (u + n)| ≤ |u| / 2 ^ 23)
    (hgap : 16 / 2 ^ 27 ≤ |u + n - (n + 1 / 2)|) : m < n + 1 / 2 ↔ u < 1 / 2 := by
  have hbounds := abs_le.mp herror
  rcases le_abs.mp hgap with habove | hbelow
  · rw [abs_of_pos (by linarith)] at hbounds
    exact ⟨fun hlt => by linarith, fun hlt => by linarith⟩
  · refine ⟨fun _ => by linarith, fun _ => ?_⟩
    rcases abs_cases u with ⟨hu, _⟩ | ⟨hu, _⟩
    · rw [hu] at hbounds
      linarith
    · rw [hu] at hbounds
      linarith

/-- The count of a whole number of entries is exact as long as the drift is rounded away. -/
theorem dropCount_le_iff_drift (h : p.value.Nearest (t / 10)) (ht : t ≤ 1000)
    (hlength : length < 2 ^ 32) {n : Nat} (hn : t * length = 1000 * n) :
    p.dropCount length ≤ n ↔ p.drift t length < 1 / 2000000 := by
  have hle : t * length ≤ 1000 * length := Nat.mul_le_mul_right length ht
  have hexact : (t : Rat) * length = 1000 * n := by exact_mod_cast hn
  by_cases hhalf : 5 ∣ t
  · have hdrift : p.drift t length = 0 := by
      rw [drift_eq, toRat_of_half h ht hhalf, sub_self, zero_mul, zero_div]
    have hceil : ⌈(t * length : Rat) / 1000⌉₊ = n := by
      rw [hexact, mul_div_cancel_left₀ _ (by norm_num), Nat.ceil_natCast]
    rw [dropCount_of_half h ht hhalf hlength, hceil, hdrift]
    exact ⟨fun _ => by norm_num, fun _ => le_refl n⟩
  · obtain ⟨k, q, hvalue, hk, hqlow, hqhigh, hdrift⟩ := exists_dyadic_of_tenth h ht hhalf
    have hpow : (0 : Rat) < 2 ^ q := by positivity
    have hunit : (16 : Rat) / 2 ^ 27 ≤ 16 / 2 ^ q :=
      div_le_div_of_nonneg_left (by norm_num) hpow (pow_le_pow_right₀ (by norm_num) hqhigh)
    have hgap := le_abs_part_sub (k * length) n (show 5 ≤ q by omega)
    have herror := p.abs_millionthsOf_sub_le hlength
    have hshare : p.share length * 1000000 = p.drift t length * 1000000 + n * 1000000 := by
      rw [drift, hexact]
      ring
    have hrelative := roundings_le_drift hvalue hk (hdrift length)
    rw [← share_of_dyadic hvalue, hshare] at hgap
    rw [hshare] at herror hrelative
    rw [p.dropCount_le_iff hlength (show n < 2 ^ 32 by omega),
      lt_half_iff (herror.trans hrelative) (hunit.trans hgap)]
    constructor <;> intro hlt <;> linarith

/-- A whole number of entries is missed in very long rows only, where the drift is an entry. -/
theorem le_dropCount_of_whole (h : p.value.Nearest (t / 10)) (ht : t ≤ 1000)
    (hlength : length ≤ 25000000) {n : Nat} (hn : t * length = 1000 * n) :
    n ≤ p.dropCount length := by
  have hle : t * length ≤ 1000 * length := Nat.mul_le_mul_right length ht
  cases n with
  | zero =>
      exact Nat.zero_le _
  | succ n =>
      have hexact : (t : Rat) * length = 1000 * (n + 1) := by exact_mod_cast hn
      have hlong : (length : Rat) ≤ 25000000 := by exact_mod_cast hlength
      have hdrift := (abs_le.mp (abs_drift_le h ht length)).1
      have hshare := p.share_le length
      rw [drift] at hdrift
      exact p.lt_dropCount_of_share (by omega) (by omega) (by linarith)

/-- A part of an entry is counted as one as long as the drift does not reach the integers. -/
theorem dropCount_of_part (hlength : length < 2 ^ 32) {n : Nat}
    (hlow : (n : Rat) + 1 / 1000 ≤ t * length / 1000)
    (hhigh : t * length / 1000 ≤ (n : Rat) + 1 - 1 / 1000)
    (hdrift : |p.drift t length| ≤ 1 / 1000 - 1 / 2 ^ 17) : p.dropCount length = n + 1 := by
  rcases abs_le.mp hdrift with ⟨hbelow, habove⟩
  rw [drift] at hbelow habove
  exact p.dropCount_eq_succ hlength (by linarith) (by linarith)

/-- The number nearest to one tenth is a little more. -/
theorem drift_of_one_tenth (h : p.value.Nearest ((1 : Nat) / 10)) (n : Nat) :
    p.drift 1 (1000 * n) = n / 2 ^ 26 := by
  have hvalue : p.value.toRat = Binary32.stepValue (0x3dcccccc + 1) := by
    apply h.toRat_eq p.toRat_eq_stepValue.2.1
    · norm_num
    · norm_num [Binary32.stepValue, Binary32.doublings]
    · norm_num [Binary32.stepValue, Binary32.doublings]
  have htenth : Binary32.stepValue (0x3dcccccc + 1) = 1 / 10 + 1 / 5 / 2 ^ 27 := by
    norm_num [Binary32.stepValue, Binary32.doublings]
  rw [drift_eq, hvalue, htenth]
  push_cast
  ring

/-- Up to 25000 entries only a whole number of entries can be exceeded. -/
theorem dropCount_eq_iff_drift (h : p.value.Nearest (t / 10)) (ht : t ≤ 1000)
    (hlength : length ≤ 25000) : p.dropCount length = ⌈(t * length : Rat) / 1000⌉₊ ↔
      (1000 ∣ t * length → p.drift t length < 1 / 2000000) := by
  rcases exact_cases t length with ⟨n, hn, hceil⟩ | ⟨n, hpart, hlow, hhigh, hceil⟩
  · have hcount := le_dropCount_of_whole h ht (show length ≤ 25000000 by omega) hn
    have hiff := dropCount_le_iff_drift h ht (show length < 2 ^ 32 by omega) hn
    rw [hceil, hn]
    constructor
    · intro hEq _
      exact hiff.mp hEq.le
    · intro hsmall
      exact Nat.le_antisymm (hiff.mpr (hsmall (Nat.dvd_mul_right 1000 n))) hcount
  · have hdrift := abs_drift_le h ht length
    have hshort : (length : Rat) ≤ 25000 := by exact_mod_cast hlength
    rw [hceil]
    exact ⟨fun _ hwhole => absurd hwhole hpart,
      fun _ => dropCount_of_part (by omega) hlow hhigh (by linarith)⟩

/-- The thousandth part of a row, which drifts by an entry in `2 ^ 26`. -/
theorem dropCount_thousands (h : p.value.Nearest ((1 : Nat) / 10)) {n : Nat}
    (hlength : 1000 * n < 2 ^ 32) : p.dropCount (1000 * n) = n ↔ n ≤ 33 := by
  have hiff := dropCount_le_iff_drift h (by decide) hlength (Nat.one_mul (1000 * n))
  rw [drift_of_one_tenth h, div_lt_iff₀ (by norm_num)] at hiff
  constructor
  · intro hEq
    have hlt := hiff.mp hEq.le
    by_contra hlarge
    have hnext : (34 : Rat) ≤ n := by exact_mod_cast not_le.mp hlarge
    linarith
  · intro hsmall
    have hle : (n : Rat) ≤ 33 := by exact_mod_cast hsmall
    exact Nat.le_antisymm (hiff.mpr (by linarith))
      (le_dropCount_of_whole h (by decide) (by omega) (Nat.one_mul (1000 * n)))

/-- What the count of a row amounts to, if the percentage is the number nearest to `t / 10`. -/
structure CountsTenths (p : Percentile) (t length : Nat) : Prop where
  /-- The drift is what an error of at most half a step amounts to. -/
  drift_le : |p.drift t length| ≤ length / 100 / 2 ^ 18
  /-- The multiples of a half are counted exactly. -/
  halves : 5 ∣ t → p.dropCount length = ⌈(t * length : Rat) / 1000⌉₊
  /-- A whole number of entries is exceeded from a drift of half a millionth on, and missed in very
  long rows only. -/
  whole : ∀ n, t * length = 1000 * n →
    (p.dropCount length ≤ n ↔ p.drift t length < 1 / 2000000) ∧
      (length ≤ 25000000 → n ≤ p.dropCount length)
  /-- In short rows that is all that can go wrong. -/
  short : length ≤ 25000 → (p.dropCount length = ⌈(t * length : Rat) / 1000⌉₊ ↔
    (1000 ∣ t * length → p.drift t length < 1 / 2000000))
  /-- In longer rows the drift is added, and half a millionth is taken away. -/
  medium : length ≤ 200000 →
    p.dropCount length = ⌈(t * length : Rat) / 1000 + p.drift t length - 1 / 2000000⌉₊
  /-- In rows of any length the roundings add their errors to the drift. -/
  long : ⌈((t * length : Rat) / 1000 + p.drift t length) * (1 - 1 / 2 ^ 50) - 1 / 2000000⌉₊ ≤
      p.dropCount length ∧
    p.dropCount length ≤
      ⌈((t * length : Rat) / 1000 + p.drift t length) * (1 + 1 / 2 ^ 50) - 1 / 2000000⌉₊
  /-- One entry of a thousand. -/
  tenth : t = 1 → ∀ n, length = 1000 * n → (p.dropCount length = n ↔ n ≤ 33)

theorem counts_tenths (h : p.value.Nearest (t / 10)) (ht : t ≤ 1000) (hlength : length < 2 ^ 32) :
    p.CountsTenths t length where
  drift_le := abs_drift_le h ht length
  halves hhalf := dropCount_of_half h ht hhalf hlength
  whole _ hn := ⟨dropCount_le_iff_drift h ht hlength hn,
    fun hle => le_dropCount_of_whole h ht hle hn⟩
  short hshort := dropCount_eq_iff_drift h ht hshort
  medium hmedium := by
    rw [drift, add_sub_cancel]
    exact p.dropCount_eq_ceil hmedium
  long := by
    rw [drift, add_sub_cancel]
    exact p.dropCount_between hlength
  tenth := by
    rintro rfl n rfl
    exact dropCount_thousands h hlength

/-- One tenth of a percent of a thousand entries is one entry, but of 34 thousand it is not 34. -/
theorem counts_tenths_thousands :
    ∃ p : Percentile, p.value = ⟨0x3dcccccd⟩ ∧ p.value.Nearest ((1 : Nat) / 10) ∧
      p.dropCount 1000 = 1 ∧ p.dropCount 34000 ≠ 34 := by
  have hnearest : (⟨0x3dcccccd⟩ : Binary32).Nearest ((1 : Nat) / 10) := by
    apply Binary32.nearest_of_neighbours (n := 0x3dcccccc) rfl rfl
    · norm_num [Binary32.stepValue, Binary32.doublings]
    · norm_num [Binary32.stepValue, Binary32.doublings]
  refine ⟨⟨⟨0x3dcccccd⟩, by decide +kernel, by decide +kernel⟩, rfl, hnearest, ?_, ?_⟩
  · exact ((counts_tenths hnearest (by decide) (by decide)).tenth rfl 1 rfl).mpr (by decide)
  · intro hEq
    exact absurd (((counts_tenths hnearest (by decide) (by decide)).tenth rfl 34 rfl).mp hEq)
      (by decide)

/-- The number nearest to 19.2 drops 25 of 125 entries, where 19.2 percent of them are 24. -/
theorem dropCount_one_more :
    ∃ p : Percentile, p.value = ⟨0x4199999a⟩ ∧ p.value.Nearest ((192 : Nat) / 10) ∧
      p.dropCount 125 = 25 ∧ ⌈((192 : Nat) * (125 : Nat) : Rat) / 1000⌉₊ = 24 := by
  refine ⟨⟨⟨0x4199999a⟩, by decide +kernel, by decide +kernel⟩, rfl, ?_, ?_, ?_⟩
  · apply Binary32.nearest_of_neighbours (n := 0x41999999) rfl rfl
    · norm_num [Binary32.stepValue, Binary32.doublings]
    · norm_num [Binary32.stepValue, Binary32.doublings]
  · decide +kernel
  · norm_num

end Percentile
end ConvSweep
