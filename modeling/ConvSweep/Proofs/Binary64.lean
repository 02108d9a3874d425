import Mathlib
import ConvSweep.Proofs.Binary32
import ConvSweep.Proofs.Rounding

/-!
# Double-precision arithmetic

A product or quotient of double-precision numbers is the exact one, rounded to 53
significant bits, as long as the exponent is neither too small nor too large.  The
exact result is carried along as a mantissa and two bits for what lies behind it,
which is all that rounding depends on, and shifting digits out keeps the bits right.
Numbers that are not negative are therefore computed with by `Rounding.significant`,
and the order of rational numbers is the order of their representations.
-/

namespace ConvSweep
namespace Binary64

open Float.Model Float.Model.UnpackedFloat Rounding

/-!
## Digits behind the mantissa
-/

/-- The mantissa is the integer part of the number; the round bit tells whether half or more of
the way to the next integer is made, and the sticky bit whether it is neither nothing nor half. -/
structure Stands (em : ExtendedMantissa) (x : Rat) : Prop where
  low : (em.mantissa : Rat) ≤ x
  high : x < em.mantissa + 1
  round_iff : em.roundBit = true ↔ em.mantissa + 1 / 2 ≤ x
  sticky_iff : em.stickyBit = true ↔ x ≠ em.mantissa ∧ x ≠ em.mantissa + 1 / 2

theorem stands_exact (m : Nat) : Stands (.ofMantissaAndAccuracy m .exact) m where
  low := le_refl _
  high := lt_add_one _
  round_iff := by
    constructor
    · nofun
    · intro h
      have hself : (m : Rat) + 1 / 2 ≤ m := h
      linarith
  sticky_iff := ⟨nofun, fun h => absurd rfl h.1⟩

/-- An integer part and the way that is made to the next integer, compared with a half. -/
theorem stands_inexact {m : Nat} {x : Rat} {o : Ordering} (hlow : (m : Rat) < x)
    (hhigh : x < m + 1) (h : compare x (m + 1 / 2) = o) :
    Stands (.ofMantissaAndAccuracy m (.inexact o)) x := by
  cases o with
  | lt =>
      have hlt : x < m + 1 / 2 := compare_lt_iff_lt.mp h
      exact
        { low := hlow.le
          high := hhigh
          round_iff := ⟨nofun, fun hle => absurd hlt (not_lt.mpr hle)⟩
          sticky_iff := ⟨fun _ => ⟨hlow.ne', hlt.ne⟩, fun _ => rfl⟩ }
  | eq =>
      have hEq : x = m + 1 / 2 := compare_eq_iff_eq.mp h
      exact
        { low := hlow.le
          high := hhigh
          round_iff := ⟨fun _ => hEq.ge, fun _ => rfl⟩
          sticky_iff := ⟨nofun, fun hne => absurd hEq hne.2⟩ }
  | gt =>
      have hlt : m + 1 / 2 < x := compare_gt_iff_gt.mp h
      exact
        { low := hlow.le
          high := hhigh
          round_iff := ⟨fun _ => hlt.le, fun _ => rfl⟩
          sticky_iff := ⟨fun _ => ⟨hlow.ne', hlt.ne'⟩, fun _ => rfl⟩ }

/-- The quotient and the remainder of a division stand for the fraction. -/
theorem stands_fraction (n : Nat) {d : Nat} (hd : 0 < d) :
    Stands (.ofMantissaAndAccuracy (n / d) (accuracyOfFraction (n % d) d)) ((n : Rat) / d) := by
  have hd' : (0 : Rat) < d := Nat.cast_pos.mpr hd
  have hsplit : (n : Rat) / d = (n / d : Nat) + (n % d : Nat) / d := by
    rw [div_eq_iff hd'.ne', add_mul, div_mul_cancel₀ _ hd'.ne', ← Nat.cast_mul, ← Nat.cast_add,
      Nat.div_add_mod']
  rw [hsplit, accuracyOfFraction]
  by_cases hrest : n % d = 0
  · rw [if_pos hrest, hrest, Nat.cast_zero, zero_div, add_zero]
    exact stands_exact _
  · have hpos : (0 : Rat) < (n % d : Nat) := Nat.cast_pos.mpr (Nat.pos_of_ne_zero hrest)
    rw [if_neg hrest]
    apply stands_inexact
    · exact lt_add_of_pos_right _ (div_pos hpos hd')
    · rw [add_lt_add_iff_left, div_lt_one hd']
      exact Nat.cast_lt.mpr (Nat.mod_lt n hd)
    · rcases lt_trichotomy (2 * (n % d)) d with hlt | hEq | hgt
      · have hlt' : (2 : Rat) * (n % d : Nat) < d := by exact_mod_cast hlt
        rw [compare_lt_iff_lt.mpr hlt, compare_lt_iff_lt, add_lt_add_iff_left, div_lt_div_iff₀ hd'
          (by norm_num)]
        linarith
      · have hEq' : (2 : Rat) * (n % d : Nat) = d := by exact_mod_cast hEq
        rw [compare_eq_iff_eq.mpr hEq, compare_eq_iff_eq, add_right_inj, div_eq_div_iff hd'.ne'
          (by norm_num)]
        linarith
      · have hgt' : (d : Rat) < 2 * (n % d : Nat) := by exact_mod_cast hgt
        rw [compare_gt_iff_gt.mpr hgt, compare_gt_iff_gt, add_lt_add_iff_left,
          div_lt_div_iff₀ (by norm_num) hd']
        linarith

/-- The digit that is shifted out becomes the round bit, and the two bits one sticky bit. -/
theorem Stands.shiftRightOne {em : ExtendedMantissa} {x : Rat} (h : Stands em x) :
    Stands em.shiftRightOne (x / 2) := by
  rcases em with ⟨m, round, sticky⟩
  rcases h with ⟨hlow, hhigh, hround, hsticky⟩
  dsimp only at hlow hhigh hround hsticky
  have hrest : round || sticky ↔ x ≠ m := by
    rw [Bool.or_eq_true, hround, hsticky]
    constructor
    · rintro (hle | hne)
      · intro hEq
        linarith
      · exact hne.1
    · intro hne
      rcases eq_or_ne x (m + 1 / 2) with hEq | hne'
      · exact Or.inl hEq.ge
      · exact Or.inr ⟨hne, hne'⟩
  have hsplit : (m : Rat) = 2 * (m / 2 : Nat) + (m % 2 : Nat) := by
    exact_mod_cast (Nat.div_add_mod m 2).symm
  have hdigit : (m % 2 = 0 ∧ (m : Rat) = 2 * (m / 2 : Nat)) ∨
      (m % 2 = 1 ∧ (m : Rat) = 2 * (m / 2 : Nat) + 1) := by
    rcases Nat.mod_two_eq_zero_or_one m with hzero | hone
    · rw [hzero, Nat.cast_zero, add_zero] at hsplit
      exact Or.inl ⟨hzero, hsplit⟩
    · rw [hone, Nat.cast_one] at hsplit
      exact Or.inr ⟨hone, hsplit⟩
  constructor
  · show ((m / 2 : Nat) : Rat) ≤ x / 2
    rcases hdigit with ⟨_, hm⟩ | ⟨_, hm⟩ <;> linarith
  · show x / 2 < (m / 2 : Nat) + 1
    rcases hdigit with ⟨_, hm⟩ | ⟨_, hm⟩ <;> linarith
  · show (m % 2 != 0) = true ↔ ((m / 2 : Nat) : Rat) + 1 / 2 ≤ x / 2
    rcases hdigit with ⟨hzero, hm⟩ | ⟨hone, hm⟩
    · rw [hzero]
      exact ⟨nofun, fun hle => by linarith⟩
    · rw [hone]
      exact ⟨fun _ => by linarith, fun _ => rfl⟩
  · show (round || sticky) = true ↔ x / 2 ≠ (m / 2 : Nat) ∧ x / 2 ≠ (m / 2 : Nat) + 1 / 2
    rw [hrest]
    rcases hdigit with ⟨_, hm⟩ | ⟨_, hm⟩
    · constructor
      · intro hne
        exact ⟨fun hEq => hne (by linarith), fun hEq => by linarith⟩
      · intro hne hEq
        exact hne.1 (by linarith)
    · constructor
      · intro hne
        exact ⟨fun hEq => by linarith, fun hEq => hne (by linarith)⟩
      · intro hne hEq
        exact hne.2 (by linarith)

theorem Stands.shiftRight {em : ExtendedMantissa} {x : Rat} (h : Stands em x) (n : Nat) :
    Stands (em >>> n) (x / 2 ^ n) := by
  induction n with
  | zero =>
      rw [pow_zero, div_one]
      exact h
  | succ n ih =>
      rw [pow_succ, ← div_div]
      exact ih.shiftRightOne

/-- The two bits suffice to round to the nearest integer. -/
theorem Stands.roundedMantissa {em : ExtendedMantissa} {x : Rat} (h : Stands em x) :
    (em.roundedMantissa : Int) = nearestEven x := by
  have hfloor : x.floor = em.mantissa := by
    apply le_antisymm
    · apply Int.lt_add_one_iff.mp
      rw [Rat.floor_lt_iff]
      exact_mod_cast h.high
    · rw [Rat.le_floor_iff]
      exact_mod_cast h.low
  rcases em with ⟨m, round, sticky⟩
  rcases h with ⟨hlow, hhigh, hround, hsticky⟩
  dsimp only at hlow hhigh hround hsticky hfloor
  rw [nearestEven, hfloor, Int.cast_natCast]
  cases round with
  | false =>
      have hlt : x - m < 1 / 2 := by
        have hnot := hround.not.mp Bool.false_ne_true
        linarith
      rw [if_pos hlt]
      cases sticky <;> rfl
  | true =>
      have hle := hround.mp rfl
      rw [if_neg (by linarith)]
      cases sticky with
      | false =>
          -- half of the way is made, so the parity decides
          have hEq : x = m + 1 / 2 := by
            by_contra hne
            exact absurd (hsticky.mpr ⟨by linarith [hround.mp rfl], hne⟩) Bool.false_ne_true
          rw [if_neg (by linarith)]
          show ((m + m % 2 : Nat) : Int) = _
          split <;> omega
      | true =>
          have hne := (hsticky.mp rfl).2
          have hlt := lt_of_le_of_ne hle (Ne.symm hne)
          rw [if_pos (by linarith)]
          rfl

/-!
## Rounding to 53 digits
-/

/-- A mantissa of 53 digits, and an exponent that can be stored with it. -/
structure Normal (m : Nat) (e : Int) : Prop where
  low : 2 ^ 52 ≤ m
  high : m < 2 ^ 53
  least : -1074 ≤ e
  most : e ≤ 971

theorem Normal.log2_eq {m : Nat} {e : Int} (h : Normal m e) : m.log2 = 52 :=
  (Nat.log2_eq_iff (Nat.ne_of_gt (Nat.lt_of_lt_of_le (by decide) h.low))).mpr ⟨h.low, h.high⟩

theorem targetExponent_eq (m : Nat) (e : Int) :
    Format.binary64.targetExponent (totalExponent m e) = max (m.log2 + e - 52) (-1074) := by
  simp only [Format.targetExponent, totalExponent, Format.mantissaBits, Format.minExponent]
  norm_num
  omega

theorem mantissa_ofMantissaAndAccuracy (m : Nat) (accuracy : Accuracy) :
    (ExtendedMantissa.ofMantissaAndAccuracy m accuracy).mantissa = m := by
  cases accuracy with
  | exact =>
      rfl
  | inexact o =>
      cases o <;> rfl

/-- The first shift leaves 53 digits, if there are as many. -/
theorem shiftToTargetExponent_first {m : Nat} {e : Int} (accuracy : Accuracy)
    (hlog : 52 ≤ m.log2) (hleast : -1022 ≤ m.log2 + e) :
    shiftToTargetExponent Format.binary64 m e accuracy =
      (ExtendedMantissa.ofMantissaAndAccuracy m accuracy >>> (m.log2 - 52), m.log2 + e - 52) := by
  have htarget : Format.binary64.targetExponent (totalExponent m e) = m.log2 + e - 52 := by
    rw [targetExponent_eq]
    omega
  have hshift : (m.log2 + e - 52 - e).toNat = m.log2 - 52 := by omega
  simp only [shiftToTargetExponent, shiftToExponent, htarget, hshift]
  congr 1
  omega

/-- A mantissa that was rounded up to one digit more is shifted once more. -/
theorem shiftToTargetExponent_carry {e : Int} (he : -1074 ≤ e) :
    shiftToTargetExponent Format.binary64 (2 ^ 53) e .exact = (⟨2 ^ 52, false, false⟩, e + 1) := by
  have htarget : Format.binary64.targetExponent (totalExponent (2 ^ 53) e) = e + 1 := by
    rw [targetExponent_eq, Nat.log2_two_pow]
    omega
  have hone : (e + 1 - e).toNat = 1 := by omega
  simp only [shiftToTargetExponent, shiftToExponent, htarget, hone]
  rfl

theorem Stands.bounds {m : Nat} {accuracy : Accuracy} {x : Rat} (hpos : 0 < m)
    (hx : Stands (.ofMantissaAndAccuracy m accuracy) x) :
    (2 : Rat) ^ (m.log2 : Int) ≤ x ∧ x < 2 ^ ((m.log2 : Int) + 1) := by
  have hlow := hx.low
  have hhigh := hx.high
  rw [mantissa_ofMantissaAndAccuracy] at hlow hhigh
  constructor
  · exact (two_zpow_log2 hpos).1.trans hlow
  · apply hhigh.trans_le
    have hnext : m + 1 ≤ 2 ^ (m.log2 + 1) := Nat.lt_log2_self
    rw [← Nat.cast_succ, ← Nat.cast_succ, two_zpow_natCast]
    exact_mod_cast hnext

theorem binade_mul_two_zpow {x : Rat} {l : Int} (hlow : (2 : Rat) ^ l ≤ x) (hhigh : x < 2 ^ (l + 1))
    (e : Int) : binade (x * 2 ^ e) = l + e := by
  apply binade_eq
  · rw [zpow_add₀ (by norm_num)]
    exact mul_le_mul_of_nonneg_right hlow (two_zpow_pos e).le
  · rw [add_right_comm, zpow_add₀ (by norm_num)]
    exact mul_lt_mul_of_pos_right hhigh (two_zpow_pos e)

/-- The digits that are left after the first shift, rounded, are those of the rounded number. -/
theorem significant_of_stands {m : Nat} {accuracy : Accuracy} {x : Rat} (hlog : 52 ≤ m.log2)
    (hx : Stands (.ofMantissaAndAccuracy m accuracy) x) (e : Int) :
    binade (x * 2 ^ e) = m.log2 + e ∧ ∃ r : Nat,
      (ExtendedMantissa.ofMantissaAndAccuracy m accuracy >>> (m.log2 - 52)).roundedMantissa = r ∧
        2 ^ 52 ≤ r ∧ r ≤ 2 ^ 53 ∧
        significant 53 (x * 2 ^ e) = r * 2 ^ (m.log2 + e - 52) := by
  have hpos : 0 < m := by
    apply Nat.pos_of_ne_zero
    rintro rfl
    exact absurd hlog (by decide)
  rcases hx.bounds hpos with ⟨hxlow, hxhigh⟩
  have hbinade := binade_mul_two_zpow hxlow hxhigh e
  have hrounded := (hx.shiftRight (m.log2 - 52)).roundedMantissa
  have hscale : (2 : Rat) ^ (m.log2 : Int) = 2 ^ 52 * 2 ^ (m.log2 - 52) := by
    rw [zpow_natCast, ← pow_add, Nat.add_sub_cancel' hlog]
  have hscale_pos : (0 : Rat) < 2 ^ (m.log2 - 52) := by positivity
  have hlow : ((2 ^ 52 : Int) : Rat) ≤ x / 2 ^ (m.log2 - 52) := by
    rw [le_div_iff₀ hscale_pos, Int.cast_pow, Int.cast_ofNat, ← hscale]
    exact hxlow
  have hhigh : x / 2 ^ (m.log2 - 52) ≤ ((2 ^ 53 : Int) : Rat) := by
    rw [two_zpow_add_one, hscale] at hxhigh
    rw [div_le_iff₀ hscale_pos, Int.cast_pow, Int.cast_ofNat]
    linarith
  refine ⟨hbinade, _, rfl, ?_, ?_, ?_⟩
  · have hle := nearestEven_mono hlow
    rw [← hrounded, nearestEven_intCast] at hle
    exact_mod_cast hle
  · have hle := nearestEven_mono hhigh
    rw [← hrounded, nearestEven_intCast] at hle
    exact_mod_cast hle
  · have hexponent : (m.log2 : Int) + e - (53 : Nat) + 1 = m.log2 + e - 52 := by omega
    have hquotient : x * 2 ^ e / (2 : Rat) ^ ((m.log2 : Int) + e - 52) =
        x / 2 ^ (m.log2 - 52) := by
      have hsplit : (m.log2 : Int) + e - 52 = (m.log2 - 52 : Nat) + e := by omega
      rw [hsplit, zpow_add₀ (by norm_num), zpow_natCast,
        mul_div_mul_right _ _ (two_zpow_pos e).ne']
    rw [significant_of_pos (mul_pos ((two_zpow_pos _).trans_le hxlow) (two_zpow_pos e)), hbinade,
      hexponent, hquotient, ← hrounded, Int.cast_natCast]

/-- The number stays clear of the smallest and of the largest exponents. -/
structure Moderate (x : Rat) : Prop where
  low : (2 : Rat) ^ (-1000 : Int) ≤ x
  high : x < 2 ^ (1000 : Int)

/-- Such a number is rounded to 53 significant bits. -/
theorem roundWithAccuracy_normal (s : Sign) {m : Nat} {e : Int} {accuracy : Accuracy} {x : Rat}
    (hlog : 52 ≤ m.log2) (hx : Stands (.ofMantissaAndAccuracy m accuracy) x)
    (hmoderate : Moderate (x * 2 ^ e)) :
    ∃ m' e' h, roundWithAccuracy Format.binary64 s m e accuracy = .finite s m' e' h ∧
      Normal m' e' ∧ (m' : Rat) * 2 ^ e' = significant 53 (x * 2 ^ e) := by
  rcases significant_of_stands hlog hx e with ⟨hbinade, r, hr, hrlow, hrhigh, hvalue⟩
  have hspec := binade_spec ((two_zpow_pos _).trans_le hmoderate.low)
  rw [hbinade] at hspec
  have hleast := two_zpow_lt_iff.mp (hmoderate.low.trans_lt hspec.2)
  have hmost := two_zpow_lt_iff.mp (hspec.1.trans_lt hmoderate.high)
  rw [roundWithAccuracy, shiftToTargetExponent_first accuracy hlog (by omega)]
  dsimp only
  rw [hr, hvalue]
  by_cases hfits : r < 2 ^ 53
  · have hnormal : Normal r (m.log2 + e - 52) := ⟨hrlow, hfits, by omega, by omega⟩
    have htarget : Format.binary64.targetExponent (totalExponent r (m.log2 + e - 52)) ≤
        m.log2 + e - 52 := by
      rw [targetExponent_eq, hnormal.log2_eq]
      omega
    have hne : ¬ r = 0 := by omega
    rw [Binary32.shiftToTargetExponent_of_target htarget]
    exact ⟨r, _, Nat.pos_of_ne_zero hne, dif_neg hne, hnormal, rfl⟩
  · have hcarry : r = 2 ^ 53 := by omega
    rw [hcarry, shiftToTargetExponent_carry (by omega)]
    refine ⟨2 ^ 52, _, by decide, dif_neg (show ¬ 2 ^ 52 = 0 by decide),
      ⟨by decide, by decide, by omega, by omega⟩, ?_⟩
    rw [two_zpow_add_one]
    push_cast
    ring

/-- A number without digits behind its mantissa is shifted to 53 digits, to either side. -/
theorem round_normal (s : Sign) {m : Nat} {e : Int} (hm : 0 < m)
    (hmoderate : Moderate ((m : Rat) * 2 ^ e)) :
    ∃ m' e' h, UnpackedFloat.round Format.binary64 s m e = .finite s m' e' h ∧
      Normal m' e' ∧ (m' : Rat) * 2 ^ e' = significant 53 (m * 2 ^ e) := by
  have hbounds := (stands_exact m).bounds hm
  have hbinade := binade_mul_two_zpow hbounds.1 hbounds.2 e
  have hspec := binade_spec ((two_zpow_pos _).trans_le hmoderate.low)
  rw [hbinade] at hspec
  have hleast := two_zpow_lt_iff.mp (hmoderate.low.trans_lt hspec.2)
  rw [UnpackedFloat.round, targetExponent_eq, decreaseExponent]
  dsimp only
  generalize hshift : (e - max ((m.log2 : Int) + e - 52) (-1074)).toNat = shift
  have hlog : 52 ≤ (m <<< shift).log2 := by
    rw [Nat.shiftLeft_eq, Nat.mul_comm, Binary32.log2_pow_mul _ hm]
    omega
  have hvalue : ((m <<< shift : Nat) : Rat) * 2 ^ (e - shift) = m * 2 ^ e := by
    rw [Nat.shiftLeft_eq, Nat.cast_mul, Nat.cast_pow, Nat.cast_ofNat, zpow_sub₀ (by norm_num),
      zpow_natCast]
    field_simp
  rw [← hvalue] at hmoderate ⊢
  exact roundWithAccuracy_normal s hlog (stands_exact _) hmoderate

/-!
## Numbers that represent a rational number
-/

/-- The double-precision number is the rational one: a zero without a sign, or a positive number
with all its digits. -/
inductive Represents : Float → Rat → Prop
  | zero {x : Float} (h : x.toModel.unpack = .zero .positive) : Represents x 0
  | normal {x : Float} {m : Nat} {e : Int} {hm : 0 < m}
      (h : x.toModel.unpack = .finite .positive m e hm) (hn : Normal m e) :
      Represents x (m * 2 ^ e)

theorem Normal.value_pos {m : Nat} {e : Int} (h : Normal m e) : (0 : Rat) < m * 2 ^ e :=
  mul_pos (Nat.cast_pos.mpr (Nat.lt_of_lt_of_le (by decide) h.low)) (two_zpow_pos e)

theorem Represents.nonneg {x : Float} {r : Rat} (h : Represents x r) : 0 ≤ r := by
  cases h with
  | zero h =>
      exact le_refl _
  | normal h hn =>
      exact hn.value_pos.le

theorem unpack_pack_normal (s : Sign) {m : Nat} {e : Int} {hm : 0 < m} (h : Normal m e) :
    (Float.Model.pack (.finite s m e hm)).unpack = .finite s m e hm := by
  rcases h with ⟨hlow, hhigh, hleast, hmost⟩
  have hlog : m.log2 = 52 := (Normal.mk hlow hhigh hleast hmost).log2_eq
  have hbias : (e + (Format.binary64.exponentBias : Nat) +
      (Format.binary64.mantissaBitsWithoutImplicit : Nat)).toNat = (e + 1075).toNat := by
    show (e + (1023 : Nat) + (52 : Nat)).toNat = _
    omega
  have hdigits : Format.binary64.mantissaBits = 53 := rfl
  show UnpackedFloat.unpack Format.binary64
    (UnpackedFloat.pack Format.binary64 (.finite s m e hm)) = _
  rw [UnpackedFloat.pack]
  dsimp only
  rw [hbias, hdigits, hlog, if_neg (show ¬ 2 ^ 11 ≤ (e + 1075).toNat + 1 by omega), if_pos rfl]
  have hexponent : (BitVec.ofNat 11 (e + 1075).toNat).toNat = (e + 1075).toNat := by
    rw [BitVec.toNat_ofNat, Nat.mod_eq_of_lt (by omega)]
  have hmantissa : (BitVec.ofNat 52 m).toNat = m - 2 ^ 52 := by
    rw [BitVec.toNat_ofNat]
    omega
  apply Binary32.unpack_normal s hm
  · show (BitVec.ofNat 11 (e + 1075).toNat).toNat + 1 ≠ 2 ^ 11
    omega
  · omega
  · show 2 ^ 52 + (BitVec.ofNat 52 m).toNat = m
    omega
  · rw [hexponent]
    show ((e + 1075).toNat : Int) - ((1023 : Nat) + (52 : Nat)) = e
    omega

theorem represents_normal {u : UnpackedFloat} {m : Nat} {e : Int} {hm : 0 < m}
    (hu : u = .finite .positive m e hm) (h : Normal m e) :
    Represents (.ofModel (.pack u)) (m * 2 ^ e) := by
  rw [hu]
  exact .normal (unpack_pack_normal .positive h) h

theorem represents_zero : Represents 0 0 :=
  .zero rfl

/-!
## Ranges
-/

/-- Zero, or between two powers of two. -/
def Between (e f : Int) (x : Rat) : Prop :=
  x = 0 ∨ (2 : Rat) ^ e ≤ x ∧ x ≤ 2 ^ f

theorem Between.moderate {e f : Int} {x : Rat} (h : Between e f x) (he : -1000 ≤ e)
    (hf : f < 1000) : x = 0 ∨ Moderate x := by
  rcases h with hzero | ⟨hlow, hhigh⟩
  · exact Or.inl hzero
  · exact Or.inr ⟨(two_zpow_le_iff.mpr he).trans hlow, hhigh.trans_lt (two_zpow_lt_iff.mpr hf)⟩

theorem significant_two_zpow (e : Int) : significant 53 (2 ^ e) = 2 ^ e := by
  simpa using significant_of_le (show 1 < 2 ^ 53 by decide) e

theorem Between.significant {e f : Int} {x : Rat} (h : Between e f x) :
    Between e f (significant 53 x) := by
  rcases h with rfl | ⟨hlow, hhigh⟩
  · exact Or.inl (significant_of_nonpos le_rfl)
  · right
    rw [← significant_two_zpow e, ← significant_two_zpow f]
    exact ⟨significant_mono (by decide) hlow, significant_mono (by decide) hhigh⟩

theorem Between.mul {e f e' f' : Int} {x y : Rat} (hx : Between e f x) (hy : Between e' f' y) :
    Between (e + e') (f + f') (x * y) := by
  rcases hx with rfl | ⟨hxlow, hxhigh⟩
  · exact Or.inl (zero_mul y)
  · rcases hy with rfl | ⟨hylow, hyhigh⟩
    · exact Or.inl (mul_zero x)
    · right
      have hx := (two_zpow_pos e).le.trans hxlow
      rw [zpow_add₀ (by norm_num), zpow_add₀ (by norm_num)]
      exact ⟨mul_le_mul hxlow hylow (two_zpow_pos e').le hx,
        mul_le_mul hxhigh hyhigh ((two_zpow_pos e').le.trans hylow) (two_zpow_pos f).le⟩

theorem Between.div {e f e' f' : Int} {x y : Rat} (hx : Between e f x) (hy : Between e' f' y)
    (hne : y ≠ 0) : Between (e - f') (f - e') (x / y) := by
  rcases hx with rfl | ⟨hxlow, hxhigh⟩
  · exact Or.inl (zero_div y)
  · rcases hy.resolve_left hne with ⟨hylow, hyhigh⟩
    right
    have hx := (two_zpow_pos e).le.trans hxlow
    have hy := (two_zpow_pos e').trans_le hylow
    rw [zpow_sub₀ (by norm_num), zpow_sub₀ (by norm_num)]
    exact ⟨div_le_div₀ hx hxlow hy hyhigh,
      div_le_div₀ (two_zpow_pos f).le hxhigh (two_zpow_pos e') hylow⟩

theorem between_word {n : Nat} (h : n < 2 ^ 64) : Between 0 64 (n : Rat) := by
  rcases Nat.eq_zero_or_pos n with rfl | hpos
  · exact Or.inl Nat.cast_zero
  · right
    rw [zpow_zero]
    have hle : n ≤ 2 ^ 64 := h.le
    exact ⟨by exact_mod_cast hpos, by exact_mod_cast hle⟩

/-!
## Operations
-/

/-- A rounded result that is packed represents the rounded number. -/
theorem represents_roundWithAccuracy {m : Nat} {e : Int} {accuracy : Accuracy} {x : Rat}
    (hlog : 52 ≤ m.log2) (hx : Stands (.ofMantissaAndAccuracy m accuracy) x)
    (hmoderate : Moderate (x * 2 ^ e)) :
    Represents (.ofModel (.pack (roundWithAccuracy Format.binary64 .positive m e accuracy)))
      (significant 53 (x * 2 ^ e)) := by
  rcases roundWithAccuracy_normal .positive hlog hx hmoderate with
    ⟨m', e', hm', hround, hnormal, hvalue⟩
  rw [← hvalue]
  exact represents_normal hround hnormal

theorem represents_ofUInt64 (n : UInt64) : Represents n.toFloat (significant 53 n.toNat) := by
  have hlt : n.toNat < 2 ^ 64 := n.toNat_lt
  show Represents (.ofModel (.pack (UnpackedFloat.normalize Format.binary64 (n.toNat : Int) 0
    .positive))) _
  rw [UnpackedFloat.normalize]
  rcases Nat.eq_zero_or_pos n.toNat with hzero | hpos
  · rw [hzero, significant_of_nonpos Nat.cast_zero.le]
    exact represents_zero
  · have hcompare : compare (n.toNat : Int) 0 = .gt := Int.compare_eq_gt.mpr (by omega)
    have hmoderate : Moderate ((n.toNat : Rat) * 2 ^ (0 : Int)) := by
      rw [zpow_zero, mul_one]
      exact ((between_word hlt).moderate (by decide) (by decide)).resolve_left
        (Nat.cast_ne_zero.mpr (Nat.ne_of_gt hpos))
    rcases round_normal .positive hpos hmoderate with ⟨m, e, hm, hround, hnormal, hvalue⟩
    rw [zpow_zero, mul_one] at hvalue
    rw [hcompare, ← hvalue]
    dsimp only
    rw [Int.toNat_natCast]
    exact represents_normal hround hnormal

/-- The quotient is computed with 53 digits or more. -/
theorem divCore_normal {m n : Nat} {e f : Int} (hm : Normal m e) (hn : Normal n f)
    (hmoderate : Moderate ((m : Rat) * 2 ^ e / (n * 2 ^ f))) :
    divCore Format.binary64 m e n f =
        ((m <<< 53) / n, e - f - 53, accuracyOfFraction ((m <<< 53) % n) n) ∧
      52 ≤ ((m <<< 53) / n).log2 ∧
      ((m <<< 53 : Nat) : Rat) / n * 2 ^ (e - f - 53) = m * 2 ^ e / (n * 2 ^ f) := by
  have hmlow := hm.low
  have hmhigh := hm.high
  have hnlow := hn.low
  have hnhigh := hn.high
  have hnpos : 0 < n := Nat.lt_of_lt_of_le (by decide) hnlow
  have hnpos' : (0 : Rat) < n := Nat.cast_pos.mpr hnpos
  have hquotient : (m : Rat) * 2 ^ e / (n * 2 ^ f) = m / n * 2 ^ (e - f) := by
    rw [mul_div_mul_comm, zpow_sub₀ (by norm_num)]
  have hratio : (m : Rat) / n < 2 := by
    rw [div_lt_iff₀ hnpos']
    exact_mod_cast (show m < 2 * n by omega)
  -- the mantissas are less than one binade apart, so the exponents tell the size of the quotient
  have hexponent : (-1000 : Int) < e - f + 1 := by
    apply two_zpow_lt_iff.mp
    calc (2 : Rat) ^ (-1000 : Int) ≤ m / n * 2 ^ (e - f) := hquotient ▸ hmoderate.low
      _ < 2 * 2 ^ (e - f) := mul_lt_mul_of_pos_right hratio (two_zpow_pos _)
      _ = 2 ^ (e - f + 1) := (two_zpow_add_one _).symm
  have htarget : min (e - f) (Format.binary64.targetExponent
      (totalExponent m e - totalExponent n f)) = e - f - 53 := by
    simp only [Format.targetExponent, totalExponent, Format.mantissaBits, Format.minExponent,
      hm.log2_eq, hn.log2_eq]
    norm_num
    omega
  have hshift : (e - f - (e - f - 53)).toNat = 53 := by omega
  refine ⟨?_, ?_, ?_⟩
  · rw [divCore, htarget, hshift]
  · have hlow : 2 ^ 52 ≤ (m <<< 53) / n := by
      rw [Nat.le_div_iff_mul_le hnpos, Nat.shiftLeft_eq]
      omega
    exact (Nat.le_log2 (Nat.ne_of_gt (Nat.lt_of_lt_of_le (by decide) hlow))).mpr hlow
  · rw [hquotient, Nat.shiftLeft_eq, zpow_sub₀ (by norm_num : (2 : Rat) ≠ 0) (e - f)]
    push_cast
    field_simp

section

variable {x y : Float} {r s : Rat} (hx : Represents x r) (hy : Represents y s)
include hx hy

theorem Represents.mul (h : r * s = 0 ∨ Moderate (r * s)) :
    Represents (x * y) (significant 53 (r * s)) := by
  show Represents (.ofModel (.pack
    (UnpackedFloat.mul Format.binary64 x.toModel.unpack y.toModel.unpack))) _
  cases hx with
  | zero hx =>
      rw [hx, zero_mul, significant_of_nonpos le_rfl]
      cases hy with
      | zero hy =>
          rw [hy]
          exact represents_zero
      | normal hy _ =>
          rw [hy]
          exact represents_zero
  | @normal m e hm hx hm' =>
      rw [hx]
      cases hy with
      | zero hy =>
          rw [hy, mul_zero, significant_of_nonpos le_rfl]
          exact represents_zero
      | @normal n f hn hy hn' =>
          rw [hy]
          have hmoderate := h.resolve_left (mul_pos hm'.value_pos hn'.value_pos).ne'
          have hvalue : (m : Rat) * 2 ^ e * (n * 2 ^ f) = ((m * n : Nat) : Rat) * 2 ^ (e + f) := by
            rw [zpow_add₀ (by norm_num), Nat.cast_mul]
            ring
          have hlog : 52 ≤ (m * n).log2 := by
            apply (Nat.le_log2 (Nat.ne_of_gt (Nat.mul_pos hm hn))).mpr
            exact Nat.le_trans hm'.low (Nat.le_mul_of_pos_right m hn)
          rw [hvalue] at hmoderate ⊢
          exact represents_roundWithAccuracy hlog (stands_exact _) hmoderate

theorem Represents.div (hs : s ≠ 0) (h : r / s = 0 ∨ Moderate (r / s)) :
    Represents (x / y) (significant 53 (r / s)) := by
  show Represents (.ofModel (.pack
    (UnpackedFloat.div Format.binary64 x.toModel.unpack y.toModel.unpack))) _
  cases hy with
  | zero hy =>
      exact absurd rfl hs
  | @normal n f hn hy hn' =>
      rw [hy]
      cases hx with
      | zero hx =>
          rw [hx, zero_div, significant_of_nonpos le_rfl]
          exact represents_zero
      | @normal m e hm hx hm' =>
          rw [hx]
          have hmoderate := h.resolve_left (div_pos hm'.value_pos hn'.value_pos).ne'
          rcases divCore_normal hm' hn' hmoderate with ⟨hcore, hlog, hvalue⟩
          rw [← hvalue] at hmoderate ⊢
          rw [UnpackedFloat.div, hcore]
          exact represents_roundWithAccuracy hlog (stands_fraction _ hn) hmoderate

end

/-!
## Comparisons
-/

theorem lt_iff_unpack (x y : Float) :
    x < y ↔ UnpackedFloat.lt x.toModel.unpack y.toModel.unpack = true := by
  show decide (UnpackedFloat.lt x.toModel.unpack y.toModel.unpack = true) = true ↔ _
  rw [decide_eq_true_eq]

/-- Numbers with all their digits compare as their exponents and then as their mantissas. -/
theorem compare_normal {m n : Nat} {e f : Int} (hm : Normal m e) (hn : Normal n f) :
    (compare e f).then (compare m n) = compare ((m : Rat) * 2 ^ e) (n * 2 ^ f) := by
  have hlt : ∀ {m n : Nat} {e f : Int}, Normal m e → Normal n f → e < f →
      (m : Rat) * 2 ^ e < n * 2 ^ f := by
    intro m n e f hm hn hef
    have hmhigh : (m : Rat) < 2 ^ 53 := by exact_mod_cast hm.high
    have hnlow : (2 : Rat) ^ 52 ≤ n := by exact_mod_cast hn.low
    calc (m : Rat) * 2 ^ e < 2 ^ 53 * 2 ^ e := mul_lt_mul_of_pos_right hmhigh (two_zpow_pos e)
      _ = 2 ^ 52 * 2 ^ (e + 1) := by
        rw [two_zpow_add_one]
        ring
      _ ≤ 2 ^ 52 * 2 ^ f := mul_le_mul_of_nonneg_left (two_zpow_le_iff.mpr hef) (by positivity)
      _ ≤ n * 2 ^ f := mul_le_mul_of_nonneg_right hnlow (two_zpow_pos f).le
  rcases lt_trichotomy e f with hef | rfl | hfe
  · rw [compare_lt_iff_lt.mpr hef, compare_lt_iff_lt.mpr (hlt hm hn hef)]
    rfl
  · rw [compare_eq_iff_eq.mpr rfl]
    show compare m n = _
    rcases lt_trichotomy m n with hmn | rfl | hnm
    · have hmn' := mul_lt_mul_of_pos_right (Nat.cast_lt.mpr hmn) (two_zpow_pos e)
      rw [compare_lt_iff_lt.mpr hmn, compare_lt_iff_lt.mpr hmn']
    · rw [compare_eq_iff_eq.mpr rfl, compare_eq_iff_eq.mpr rfl]
    · have hnm' := mul_lt_mul_of_pos_right (Nat.cast_lt.mpr hnm) (two_zpow_pos e)
      rw [compare_gt_iff_gt.mpr hnm, compare_gt_iff_gt.mpr hnm']
  · rw [compare_gt_iff_gt.mpr hfe, compare_gt_iff_gt.mpr (hlt hn hm hfe)]
    rfl

section

variable {x y : Float} {r s : Rat} (hx : Represents x r) (hy : Represents y s)
include hx hy

theorem Represents.compare_eq :
    UnpackedFloat.compare x.toModel.unpack y.toModel.unpack = some (compare r s) := by
  cases hx with
  | zero hx =>
      rw [hx]
      cases hy with
      | zero hy =>
          rw [hy]
          rfl
      | normal hy hn =>
          rw [hy, compare_lt_iff_lt.mpr hn.value_pos]
          rfl
  | normal hx hm =>
      rw [hx]
      cases hy with
      | zero hy =>
          rw [hy, compare_gt_iff_gt.mpr hm.value_pos]
          rfl
      | normal hy hn =>
          rw [hy]
          exact congrArg some (compare_normal hm hn)

theorem Represents.le_iff : x ≤ y ↔ r ≤ s := by
  show decide (UnpackedFloat.le x.toModel.unpack y.toModel.unpack = true) = true ↔ _
  rw [decide_eq_true_eq, UnpackedFloat.le, hx.compare_eq hy, Option.any_some,
    Ordering.isLE_iff_ne_gt]
  exact compare_le_iff_le

theorem Represents.lt_iff : x < y ↔ r < s := by
  rw [lt_iff_unpack, UnpackedFloat.lt, hx.compare_eq hy, beq_iff_eq, Option.some_inj,
    compare_lt_iff_lt]

theorem Represents.beq_iff : (x == y) = true ↔ r = s := by
  show UnpackedFloat.beq x.toModel.unpack y.toModel.unpack = true ↔ _
  rw [UnpackedFloat.beq, hx.compare_eq hy, beq_iff_eq, Option.some_inj, compare_eq_iff_eq]

end

end Binary64
end ConvSweep
