import Mathlib
import ConvSweep.Proofs.Matrix.Percentile
import ConvSweep.Proofs.Signed

/-!
# Single precision in double precision

A finite single-precision number is the same number in double precision, with all its
digits: a fraction without a leading one is shifted until it has one.  Infinities and
NaNs stay apart from the other numbers.  All finite numbers are multiples of the
smallest one, so two of them are equal or far enough from each other for their
difference to be rounded to 53 significant bits.
-/

namespace ConvSweep

open Float.Model Float.Model.UnpackedFloat Rounding

/-!
## Words of double precision
-/

namespace Binary64

/-- The word of a sign, an exponent field and a fraction. -/
def wordOf (negative : Bool) (field fraction : UInt64) : UInt64 :=
  let sign : UInt64 := if negative then 0x8000000000000000 else 0
  sign ||| (field <<< 52 ||| fraction)

def signOf (negative : Bool) : Sign :=
  if negative then .negative else .positive

theorem toNat_wordOf (negative : Bool) {field fraction : UInt64} (hfield : field.toNat < 2 ^ 11)
    (hfraction : fraction.toNat < 2 ^ 52) :
    (wordOf negative field fraction).toNat =
      negative.toNat * 2 ^ 63 + (field.toNat * 2 ^ 52 + fraction.toNat) := by
  have hlow : (field <<< 52 ||| fraction).toNat = field.toNat * 2 ^ 52 + fraction.toNat := by
    rw [UInt64.toNat_or, UInt64.toNat_shiftLeft]
    show field.toNat <<< 52 % 2 ^ 64 ||| fraction.toNat = _
    rw [Nat.mod_eq_of_lt (by rw [Nat.shiftLeft_eq]; omega),
      ← Nat.shiftLeft_add_eq_or_of_lt hfraction, Nat.shiftLeft_eq]
  rw [wordOf, UInt64.toNat_or, hlow]
  cases negative with
  | false =>
      show 0 ||| _ = _
      rw [Nat.zero_or]
      simp
  | true =>
      show 1 <<< 63 ||| _ = _
      rw [← Nat.shiftLeft_add_eq_or_of_lt (by omega)]
      rfl

theorem toNat_packComponents (s : Sign) (field : BitVec 11) (fraction : BitVec 52) :
    (packComponents Format.binary64 s field fraction).toNat =
      s.toBitVec.toNat * 2 ^ 63 + (field.toNat * 2 ^ 52 + fraction.toNat) := by
  show (s.toBitVec ++ field ++ fraction).toNat = _
  rw [BitVec.toNat_append, BitVec.toNat_append, ← Nat.shiftLeft_add_eq_or_of_lt fraction.isLt,
    ← Nat.shiftLeft_add_eq_or_of_lt field.isLt, Nat.shiftLeft_eq, Nat.shiftLeft_eq]
  ring

theorem wordOf_eq (negative : Bool) {field fraction : UInt64} (hfield : field.toNat < 2 ^ 11)
    (hfraction : fraction.toNat < 2 ^ 52) :
    (wordOf negative field fraction).toBitVec = packComponents Format.binary64 (signOf negative)
      (.ofNat 11 field.toNat) (.ofNat 52 fraction.toNat) := by
  have hsign : (signOf negative).toBitVec.toNat = negative.toNat := by
    cases negative <;> rfl
  apply BitVec.eq_of_toNat_eq
  rw [toNat_packComponents, hsign, BitVec.toNat_ofNat, BitVec.toNat_ofNat,
    Nat.mod_eq_of_lt hfield, Nat.mod_eq_of_lt hfraction]
  exact toNat_wordOf negative hfield hfraction

/-- Reading a word makes it canonical. -/
theorem unpack_ofBits (b : UInt64) : (Float.ofBits b).toModel.unpack =
    (Float.Model.pack (UnpackedFloat.unpack Format.binary64 b.toBitVec)).unpack := rfl

theorem carries_wordOf (negative : Bool) (field fraction : UInt64) (hpos : 0 < field.toNat)
    (hlast : field.toNat < 2047) (hfraction : fraction.toNat < 2 ^ 52) :
    Carries (Float.ofBits (wordOf negative field fraction))
      (((signOf negative).apply (2 ^ 52 + fraction.toNat : Nat) : Int) *
        2 ^ ((field.toNat : Int) - 1075)) := by
  have hm : 0 < 2 ^ 52 + fraction.toNat := by omega
  have hnormal : Normal (2 ^ 52 + fraction.toNat) ((field.toNat : Int) - 1075) :=
    ⟨by omega, by omega, by omega, by omega⟩
  have hread : UnpackedFloat.unpack Format.binary64 (wordOf negative field fraction).toBitVec =
      .finite (signOf negative) (2 ^ 52 + fraction.toNat) (field.toNat - 1075) hm := by
    rw [wordOf_eq negative (by omega) hfraction]
    have hfield' : (BitVec.ofNat 11 field.toNat).toNat = field.toNat := by
      rw [BitVec.toNat_ofNat]
      omega
    have hfraction' : (BitVec.ofNat 52 fraction.toNat).toNat = fraction.toNat := by
      rw [BitVec.toNat_ofNat]
      omega
    apply Binary32.unpack_normal _ hm
    · show (BitVec.ofNat 11 field.toNat).toNat + 1 ≠ 2 ^ 11
      omega
    · show (BitVec.ofNat 11 field.toNat).toNat ≠ 0
      omega
    · show 2 ^ 52 + (BitVec.ofNat 52 fraction.toNat).toNat = _
      omega
    · rw [hfield']
      rfl
  exact carries_normal hread hnormal

/-- The last exponent field is that of the infinities and of the NaNs. -/
theorem not_isFinite_wordOf (negative : Bool) {fraction : UInt64}
    (hfraction : fraction.toNat < 2 ^ 52) :
    (Float.ofBits (wordOf negative 0x7ff fraction)).isFinite = false := by
  have hread : UnpackedFloat.unpack Format.binary64 (wordOf negative 0x7ff fraction).toBitVec =
      if BitVec.ofNat 52 fraction.toNat = 0#52 then .infinity (signOf negative)
      else .notANumber := by
    rw [wordOf_eq negative (by decide) hfraction]
    unfold UnpackedFloat.unpack
    dsimp only
    simp only [unpackExponent_packComponents, unpackMantissa_packComponents,
      Binary32.unpackSign_packComponents, Binary32.sign_ofBitVec_toBitVec]
    exact if_pos rfl
  show (Float.ofBits _).toModel.unpack.isFinite = false
  rw [unpack_ofBits, hread]
  split
  · cases signOf negative <;> rfl
  · rfl

theorem signOf_apply (negative : Bool) (m : Nat) (e : Int) :
    (((signOf negative).apply m : Int) : Rat) * 2 ^ e =
      if negative then -((m : Rat) * 2 ^ e) else m * 2 ^ e := by
  cases negative with
  | false =>
      rfl
  | true =>
      show ((-(m : Int) : Int) : Rat) * 2 ^ e = -((m : Rat) * 2 ^ e)
      rw [Int.cast_neg, Int.cast_natCast, neg_mul]

/-- The digits behind the leading one, shifted to the top of the fraction. -/
def alignedFraction (f : UInt64) : UInt64 :=
  (f - UInt64.ofNat (Nat.pow 2 f.toNat.log2)) <<< UInt64.ofNat (52 - f.toNat.log2)

/-- With its leading one the shifted fraction is the number itself, shifted. -/
theorem toNat_alignedFraction {f : UInt64} (hpos : 0 < f.toNat) (hlt : f.toNat < 2 ^ 52) :
    2 ^ 52 + (alignedFraction f).toNat = f.toNat * 2 ^ (52 - f.toNat.log2) ∧
      (alignedFraction f).toNat < 2 ^ 52 := by
  have htop : f.toNat.log2 < 52 := (Nat.log2_lt (Nat.ne_of_gt hpos)).mpr hlt
  have hlow : 2 ^ f.toNat.log2 ≤ f.toNat := Nat.log2_self_le (Nat.ne_of_gt hpos)
  have hhigh : f.toNat < 2 * 2 ^ f.toNat.log2 := by
    rw [← Nat.pow_succ']
    exact Nat.lt_log2_self
  have hleading : (UInt64.ofNat (Nat.pow 2 f.toNat.log2)).toNat = 2 ^ f.toNat.log2 :=
    UInt64.toNat_ofNat_of_lt' (by
      show 2 ^ f.toNat.log2 < 2 ^ 64
      omega)
  have hrest : (f - UInt64.ofNat (Nat.pow 2 f.toNat.log2)).toNat =
      f.toNat - 2 ^ f.toNat.log2 := by
    rw [UInt64.toNat_sub_of_le _ _ (UInt64.le_iff_toNat_le.mpr (by omega)), hleading]
  have hamount : (UInt64.ofNat (52 - f.toNat.log2)).toNat % 64 = 52 - f.toNat.log2 := by
    rw [UInt64.toNat_ofNat_of_lt' (show 52 - f.toNat.log2 < 2 ^ 64 by omega)]
    omega
  have hscale : 2 ^ f.toNat.log2 * 2 ^ (52 - f.toNat.log2) = 2 ^ 52 := by
    rw [← Nat.pow_add, Nat.add_sub_cancel' (by omega)]
  have hfits : (f.toNat - 2 ^ f.toNat.log2) * 2 ^ (52 - f.toNat.log2) < 2 ^ 52 := by
    rw [← hscale]
    exact Nat.mul_lt_mul_of_pos_right (by omega) (Nat.two_pow_pos _)
  have hshifted : (alignedFraction f).toNat =
      (f.toNat - 2 ^ f.toNat.log2) * 2 ^ (52 - f.toNat.log2) := by
    rw [alignedFraction, UInt64.toNat_shiftLeft, hamount, hrest, Nat.shiftLeft_eq,
      Nat.mod_eq_of_lt (by omega)]
  rw [hshifted]
  refine ⟨?_, hfits⟩
  rw [← hscale, ← Nat.add_mul, Nat.add_sub_cancel' hlow]

end Binary64

/-!
## Widening
-/

namespace Binary32

open Binary64

variable {x : Binary32}

theorem toNat_toUInt64_exponentField (x : Binary32) :
    x.exponentField.toUInt64.toNat = x.bits.toNat / 2 ^ 23 % 2 ^ 8 := by
  rw [UInt32.toNat_toUInt64, toNat_exponentField]

theorem toNat_toUInt64_fraction (x : Binary32) :
    x.fraction.toUInt64.toNat = x.bits.toNat % 2 ^ 23 := by
  rw [UInt32.toNat_toUInt64, toNat_fraction]

theorem toNat_fraction_shifted (x : Binary32) :
    (x.fraction.toUInt64 <<< 29).toNat = x.bits.toNat % 2 ^ 23 * 2 ^ 29 := by
  rw [UInt64.toNat_shiftLeft, toNat_toUInt64_fraction]
  show _ <<< 29 % 2 ^ 64 = _
  rw [Nat.shiftLeft_eq]
  omega

/-- A fraction with its leading one. -/
theorem carries_toFloat_normal (hfinite : x.isFinite = true)
    (hfield : x.bits.toNat / 2 ^ 23 % 2 ^ 8 ≠ 0) : Carries x.toFloat x.toRat := by
  have hlast := field_of_isFinite hfinite
  have hexponent := toNat_toUInt64_exponentField x
  have hne : x.exponentField.toUInt64 ≠ 0xff := by
    intro h
    rw [h] at hexponent
    exact hlast hexponent.symm
  have hne' : x.exponentField.toUInt64 ≠ 0 := by
    intro h
    rw [h] at hexponent
    exact hfield hexponent.symm
  have hword : x.toFloat = Float.ofBits (wordOf x.isNegative (x.exponentField.toUInt64 + 896)
      (x.fraction.toUInt64 <<< 29)) := by
    unfold toFloat
    dsimp only
    rw [if_neg hne, if_pos hne']
    rfl
  have hwide : (x.exponentField.toUInt64 + 896).toNat = x.bits.toNat / 2 ^ 23 % 2 ^ 8 + 896 := by
    rw [UInt64.toNat_add, hexponent]
    show (_ + 896) % 2 ^ 64 = _
    omega
  have hshifted := toNat_fraction_shifted x
  have hcarries := carries_wordOf x.isNegative (x.exponentField.toUInt64 + 896)
    (x.fraction.toUInt64 <<< 29) (by omega) (by omega) (by omega)
  rw [signOf_apply, hwide, hshifted] at hcarries
  rw [hword, toRat_eq_signed hfinite, stepValue_of_bits, if_neg hfield]
  have hvalue : ((2 ^ 52 + x.bits.toNat % 2 ^ 23 * 2 ^ 29 : Nat) : Rat) *
      2 ^ (((x.bits.toNat / 2 ^ 23 % 2 ^ 8 + 896 : Nat) : Int) - 1075) =
        ((2 ^ 23 + x.bits.toNat % 2 ^ 23 : Nat) : Rat) *
          2 ^ ((-149 : Int) + (x.bits.toNat / 2 ^ 23 % 2 ^ 8 : Nat) - 1) := by
    have hsplit : ((-149 : Int) + (x.bits.toNat / 2 ^ 23 % 2 ^ 8 : Nat) - 1) =
        29 + (((x.bits.toNat / 2 ^ 23 % 2 ^ 8 + 896 : Nat) : Int) - 1075) := by
      push_cast
      ring
    rw [hsplit, zpow_add₀ (by norm_num)]
    push_cast
    ring
  rw [hvalue] at hcarries
  exact hcarries

/-- A fraction without a leading one is shifted until it has one. -/
theorem carries_toFloat_subnormal (hfinite : x.isFinite = true)
    (hfield : x.bits.toNat / 2 ^ 23 % 2 ^ 8 = 0) : Carries x.toFloat x.toRat := by
  have hexponent := toNat_toUInt64_exponentField x
  have hfraction := toNat_toUInt64_fraction x
  rw [hfield] at hexponent
  have hfirst : x.exponentField.toUInt64 = 0 := UInt64.toNat_inj.mp hexponent
  rw [toRat_eq_signed hfinite, stepValue_of_bits, if_pos hfield]
  rcases Nat.eq_zero_or_pos (x.bits.toNat % 2 ^ 23) with hzero | hpos
  · have hnone : x.fraction.toUInt64 = 0 := UInt64.toNat_inj.mp (hfraction.trans hzero)
    have hword : x.toFloat = Float.ofBits (wordOf x.isNegative 0 0) := by
      unfold toFloat
      dsimp only
      rw [hfirst, hnone]
      rfl
    rw [hword, hzero, Nat.cast_zero, zero_mul, neg_zero, ite_self]
    cases x.isNegative <;> exact .zero rfl
  · have hsome : x.fraction.toUInt64 ≠ 0 := by
      intro h
      rw [h] at hfraction
      exact Nat.ne_of_gt hpos hfraction.symm
    have hword : x.toFloat = Float.ofBits (wordOf x.isNegative
        (UInt64.ofNat (x.fraction.toUInt64.toNat.log2 + 874))
        (alignedFraction x.fraction.toUInt64)) := by
      unfold toFloat
      dsimp only
      rw [hfirst, if_neg (show ¬ (0 : UInt64) = 0xff by decide),
        if_neg (show ¬ (0 : UInt64) ≠ 0 by decide), if_neg hsome]
      rfl
    have haligned := toNat_alignedFraction (f := x.fraction.toUInt64) (by omega) (by omega)
    rw [hfraction] at hword haligned
    have htop : (x.bits.toNat % 2 ^ 23).log2 < 23 :=
      (Nat.log2_lt (Nat.ne_of_gt hpos)).mpr (Nat.mod_lt _ (by decide))
    generalize x.bits.toNat % 2 ^ 23 = f at *
    have hwide : (UInt64.ofNat (f.log2 + 874)).toNat = f.log2 + 874 :=
      UInt64.toNat_ofNat_of_lt' (by
        show f.log2 + 874 < 2 ^ 64
        omega)
    have hcarries := carries_wordOf x.isNegative (UInt64.ofNat (f.log2 + 874))
      (alignedFraction x.fraction.toUInt64) (by omega) (by omega) haligned.2
    have hvalue : ((f * 2 ^ (52 - f.log2) : Nat) : Rat) *
        2 ^ (((f.log2 + 874 : Nat) : Int) - 1075) = f * 2 ^ (-149 : Int) := by
      have hsplit : (-149 : Int) = ((52 - f.log2 : Nat) : Int) +
          (((f.log2 + 874 : Nat) : Int) - 1075) := by omega
      rw [hsplit, zpow_add₀ (by norm_num), zpow_natCast]
      push_cast
      ring
    rw [signOf_apply, hwide, haligned.1, hvalue] at hcarries
    rw [hword]
    exact hcarries

/-- Every finite number is one of double precision. -/
theorem carries_toFloat (hfinite : x.isFinite = true) : Carries x.toFloat x.toRat := by
  by_cases hfield : x.bits.toNat / 2 ^ 23 % 2 ^ 8 = 0
  · exact carries_toFloat_subnormal hfinite hfield
  · exact carries_toFloat_normal hfinite hfield

/-- Widening keeps the infinities and the NaNs apart from the other numbers. -/
theorem isFinite_toFloat (x : Binary32) : x.toFloat.isFinite = x.isFinite := by
  cases hfinite : x.isFinite with
  | true =>
      exact (carries_toFloat hfinite).isFinite
  | false =>
      have hlast : x.exponentField = 0xff := by
        rw [isFinite, bne_eq_false_iff_eq] at hfinite
        exact hfinite
      have hword : x.toFloat =
          Float.ofBits (wordOf x.isNegative 0x7ff (x.fraction.toUInt64 <<< 29)) := by
        unfold toFloat
        dsimp only
        rw [hlast, if_pos (show UInt32.toUInt64 0xff = 0xff from rfl)]
        rfl
      rw [hword]
      apply not_isFinite_wordOf
      rw [toNat_fraction_shifted]
      omega

theorem isNaN_of_isFinite (hfinite : x.isFinite = true) : x.isNaN = false := by
  apply Bool.eq_false_iff.mpr
  intro hnan
  exact field_of_isFinite hfinite ((isNaN_iff x).mp hnan).1

/-!
## Distances
-/

/-- Finite numbers are multiples of the smallest one. -/
theorem exists_multiple (hfinite : x.isFinite = true) :
    ∃ k : Int, x.toRat = k * 2 ^ (-149 : Int) := by
  have hstep : ∃ k : Nat, stepValue (x.bits.toNat % 2 ^ 31) = k * 2 ^ (-149 : Int) := by
    refine ⟨(x.bits.toNat % 2 ^ 31 - doublings (x.bits.toNat % 2 ^ 31) * 2 ^ 23) *
      2 ^ doublings (x.bits.toNat % 2 ^ 31), ?_⟩
    rw [stepValue, sub_eq_add_neg, zpow_add₀ (by norm_num), zpow_natCast]
    push_cast
    ring
  rcases hstep with ⟨k, hk⟩
  rw [toRat_eq_signed hfinite, hk]
  split
  · exact ⟨-k, by push_cast; ring⟩
  · exact ⟨k, by push_cast; ring⟩

theorem abs_toRat_lt (hfinite : x.isFinite = true) : |x.toRat| < 2 ^ (128 : Int) := by
  have hfield := field_of_isFinite hfinite
  have hlt : stepValue (x.bits.toNat % 2 ^ 31) < stepValue (255 * 2 ^ 23) :=
    stepValue_strictMono (by omega)
  have hlimit : stepValue (255 * 2 ^ 23) = 2 ^ (128 : Int) := by
    rw [stepValue, doublings]
    norm_num
  have hnonneg : 0 ≤ stepValue (x.bits.toNat % 2 ^ 31) := by
    rw [stepValue]
    positivity
  have hmagnitude : |x.toRat| = stepValue (x.bits.toNat % 2 ^ 31) := by
    rw [toRat_eq_signed hfinite]
    split
    · rw [abs_neg, abs_of_nonneg hnonneg]
    · rw [abs_of_nonneg hnonneg]
  rw [hmagnitude, ← hlimit]
  exact hlt

/-- Two finite numbers are equal, or not nearer than the smallest number. -/
theorem between_abs_sub {y : Binary32} (hx : x.isFinite = true) (hy : y.isFinite = true) :
    Between (-149) 129 |x.toRat - y.toRat| := by
  rcases exists_multiple hx with ⟨j, hj⟩
  rcases exists_multiple hy with ⟨k, hk⟩
  have hdifference : x.toRat - y.toRat = ((j - k : Int) : Rat) * 2 ^ (-149 : Int) := by
    rw [hj, hk]
    push_cast
    ring
  by_cases hEq : j = k
  · left
    rw [hdifference, hEq, sub_self, Int.cast_zero, zero_mul, abs_zero]
  · right
    constructor
    · have hone : (1 : Rat) ≤ |((j - k : Int) : Rat)| := by
        rw [← Int.cast_abs]
        exact_mod_cast Int.one_le_abs (sub_ne_zero.mpr hEq)
      rw [hdifference, abs_mul, abs_of_pos (two_zpow_pos _)]
      exact le_mul_of_one_le_left (two_zpow_pos _).le hone
    · have hsum := (abs_sub x.toRat y.toRat).trans
        (add_le_add (abs_toRat_lt hx).le (abs_toRat_lt hy).le)
      rw [← two_mul, ← two_zpow_add_one] at hsum
      exact hsum

/-- Finite numbers are equal if their values are. -/
theorem beq_iff_toRat {y : Binary32} (hx : x.isFinite = true) (hy : y.isFinite = true) :
    (x == y) = true ↔ x.toRat = y.toRat := by
  rw [beq_iff, toRat_eq_placeValue hx, toRat_eq_placeValue hy,
    placeValue_strictMono.injective.eq_iff]
  exact ⟨fun h => h.2.2, fun h => ⟨isNaN_of_isFinite hx, isNaN_of_isFinite hy, h⟩⟩

end Binary32
end ConvSweep
