import Mathlib
import ConvSweep.Binary32
import ConvSweep.Proofs.Matrix.Dense

/-!
# Laws of single-precision arithmetic

Rounded sums and products do not form a ring, but a few laws hold exactly, bit for
bit: products commute, one is neutral, and a zero of either sign is neutral in
every sum that started from zero.  They are proved from the definition of the
operations on unpacked numbers: a sign, a mantissa and an exponent, which are
shifted into place, rounded, and packed.  A NaN has one bit pattern only.
-/

namespace ConvSweep
namespace Binary32

open Float.Model Float.Model.UnpackedFloat

/-!
## Shifts
-/

theorem targetExponent_eq (m : Nat) (e : Int) :
    Format.binary32.targetExponent (totalExponent m e) = max (m.log2 + e - 23) (-149) := by
  simp only [Format.targetExponent, totalExponent, Format.mantissaBits, Format.minExponent]
  norm_num
  omega

theorem mantissa_shiftRight (em : ExtendedMantissa) (n : Nat) :
    (em >>> n).mantissa = em.mantissa / 2 ^ n := by
  induction n with
  | zero =>
      rw [Nat.pow_zero, Nat.div_one]
      rfl
  | succ n ih =>
      have hstep : (em >>> (n + 1)).mantissa = (em >>> n).mantissa / 2 := rfl
      rw [hstep, ih, Nat.div_div_eq_div_mul, Nat.pow_succ]

/-- Shifting out zeros leaves nothing to round. -/
theorem shiftRight_exact (m n : Nat) :
    (⟨2 ^ n * m, false, false⟩ : ExtendedMantissa) >>> n = ⟨m, false, false⟩ := by
  induction n generalizing m with
  | zero =>
      rw [Nat.pow_zero, Nat.one_mul]
      rfl
  | succ n ih =>
      have hstep : (⟨2 ^ (n + 1) * m, false, false⟩ : ExtendedMantissa) >>> (n + 1) =
          ((⟨2 ^ n * (2 * m), false, false⟩ : ExtendedMantissa) >>> n).shiftRightOne := by
        rw [Nat.pow_succ, Nat.mul_assoc]
        rfl
      rw [hstep, ih]
      simp [ExtendedMantissa.shiftRightOne]

theorem roundedMantissa_bounds (em : ExtendedMantissa) :
    em.mantissa ≤ em.roundedMantissa ∧ em.roundedMantissa ≤ em.mantissa + 1 := by
  rcases em with ⟨m, round, sticky⟩
  cases round with
  | false =>
      cases sticky with
      | false =>
          exact ⟨Nat.le_refl m, Nat.le_succ m⟩
      | true =>
          exact ⟨Nat.le_refl m, Nat.le_succ m⟩
  | true =>
      cases sticky with
      | false =>
          show m ≤ m + m % 2 ∧ m + m % 2 ≤ m + 1
          omega
      | true =>
          exact ⟨Nat.le_succ m, Nat.le_refl (m + 1)⟩

theorem log2_pow_mul (k : Nat) {m : Nat} (hm : 0 < m) : (2 ^ k * m).log2 = k + m.log2 := by
  induction k with
  | zero =>
      rw [Nat.pow_zero, Nat.one_mul, Nat.zero_add]
  | succ k ih =>
      have hpos : 0 < 2 ^ k * m := Nat.mul_pos (Nat.two_pow_pos k) hm
      rw [Nat.pow_succ, Nat.mul_comm (2 ^ k), Nat.mul_assoc, Nat.log2_two_mul (by omega), ih]
      omega

/-- A mantissa of at most 24 digits, and of fewer only at the least exponent. -/
def Placed (m : Nat) (e : Int) : Prop :=
  0 < m ∧ m < 2 ^ 24 ∧ -149 ≤ e ∧ (e = -149 ∨ 2 ^ 23 ≤ m)

theorem log2_of_lt {m : Nat} (h : m < 2 ^ 24) : m.log2 ≤ 23 := by
  rcases Nat.eq_zero_or_pos m with hm | hm
  · rw [hm]
    decide
  · have hlog := (Nat.log2_lt (Nat.ne_of_gt hm)).mpr h
    omega

theorem log2_of_le {m : Nat} (h : 2 ^ 23 ≤ m) : 23 ≤ m.log2 :=
  (Nat.le_log2 (by omega)).mpr h

theorem Placed.targetExponent {m : Nat} {e : Int} (h : Placed m e) :
    Format.binary32.targetExponent (totalExponent m e) = e := by
  rcases h with ⟨_, hlt, hmin, hnormal⟩
  have hlog := log2_of_lt hlt
  rw [targetExponent_eq]
  rcases hnormal with hEq | hle
  · omega
  · have hlog' := log2_of_le hle
    omega

theorem shiftToTargetExponent_of_target {spec : Format} {m : Nat} {e : Int}
    (h : spec.targetExponent (totalExponent m e) ≤ e) :
    shiftToTargetExponent spec m e .exact = (⟨m, false, false⟩, e) := by
  have hzero : (spec.targetExponent (totalExponent m e) - e).toNat = 0 := by omega
  simp only [shiftToTargetExponent, shiftToExponent, hzero]
  rw [Int.ofNat_zero, Int.add_zero]
  rfl

/-!
## Rounding
-/

/-- A mantissa that rounds up to one digit more is shifted once. -/
theorem shiftToTargetExponent_carry {e : Int} (he : -149 ≤ e) :
    shiftToTargetExponent Format.binary32 (2 ^ 24) e .exact = (⟨2 ^ 23, false, false⟩, e + 1) := by
  have htarget : Format.binary32.targetExponent (totalExponent (2 ^ 24) e) = e + 1 := by
    rw [targetExponent_eq, Nat.log2_two_pow]
    omega
  have hone : (e + 1 - e).toNat = 1 := by omega
  simp only [shiftToTargetExponent, shiftToExponent, htarget, hone]
  rfl

/-- The digits that remain after the first shift, before the rounding. -/
theorem firstShift_bounds {m : Nat} {e : Int} (hm : 0 < m) (hmin : -149 ≤ e)
    (hle : e ≤ Format.binary32.targetExponent (totalExponent m e)) :
    Placed (m / 2 ^ (Format.binary32.targetExponent (totalExponent m e) - e).toNat)
      (Format.binary32.targetExponent (totalExponent m e)) := by
  rw [targetExponent_eq] at hle ⊢
  have hself : 2 ^ m.log2 ≤ m := Nat.log2_self_le (Nat.ne_of_gt hm)
  have hnext : m < 2 ^ (m.log2 + 1) := Nat.lt_log2_self
  by_cases hlog : (m.log2 : Int) + e - 23 ≤ -149
  · have hEq : max ((m.log2 : Int) + e - 23) (-149) = e := by omega
    have hlog' : m.log2 + 1 ≤ 24 := by omega
    have hpow : 2 ^ (m.log2 + 1) ≤ 2 ^ 24 := Nat.pow_le_pow_right (by decide) hlog'
    rw [hEq, Int.sub_self, Int.toNat_zero, Nat.pow_zero, Nat.div_one]
    exact ⟨hm, by omega, hmin, by omega⟩
  · have hEq : max ((m.log2 : Int) + e - 23) (-149) = m.log2 + e - 23 := by omega
    have hshift : ((m.log2 : Int) + e - 23 - e).toNat = m.log2 - 23 := by omega
    have hlog' : 23 ≤ m.log2 := by omega
    have hpos : 0 < 2 ^ (m.log2 - 23) := Nat.two_pow_pos _
    have hlow : 2 ^ 23 ≤ m / 2 ^ (m.log2 - 23) := by
      rw [Nat.le_div_iff_mul_le hpos, ← Nat.pow_add, Nat.add_sub_cancel' hlog']
      exact hself
    have hhigh : m / 2 ^ (m.log2 - 23) < 2 ^ 24 := by
      have hexponent : 24 + (m.log2 - 23) = m.log2 + 1 := by omega
      rw [Nat.div_lt_iff_lt_mul hpos, ← Nat.pow_add, hexponent]
      exact hnext
    rw [hEq, hshift]
    exact ⟨by omega, hhigh, by omega, Or.inr hlow⟩

/-- A positive number that is not too small to be placed is rounded to a positive one. -/
theorem roundWithAccuracy_placed (s : Sign) {m : Nat} {e : Int} (hm : 0 < m) (hmin : -149 ≤ e)
    (hle : e ≤ Format.binary32.targetExponent (totalExponent m e)) :
    ∃ m' e' h, roundWithAccuracy Format.binary32 s m e .exact = .finite s m' e' h ∧
      Placed m' e' := by
  have hplaced := firstShift_bounds hm hmin hle
  have hfirst : shiftToTargetExponent Format.binary32 m e .exact =
      ((⟨m, false, false⟩ : ExtendedMantissa) >>>
        (Format.binary32.targetExponent (totalExponent m e) - e).toNat,
        Format.binary32.targetExponent (totalExponent m e)) := by
    simp only [shiftToTargetExponent, shiftToExponent, ExtendedMantissa.ofMantissaAndAccuracy]
    congr 1
    omega
  generalize Format.binary32.targetExponent (totalExponent m e) = t at hplaced hfirst hle
  have hmantissa := mantissa_shiftRight ⟨m, false, false⟩ (t - e).toNat
  generalize (⟨m, false, false⟩ : ExtendedMantissa) >>> (t - e).toNat = em at hfirst hmantissa
  have hbounds := roundedMantissa_bounds em
  rw [hmantissa] at hbounds
  rcases hplaced with ⟨hpos, hlt, hleast, hnormal⟩
  dsimp only at hbounds
  rw [roundWithAccuracy, hfirst]
  dsimp only
  by_cases hfits : em.roundedMantissa < 2 ^ 24
  · have hlog := log2_of_lt hfits
    have htarget : Format.binary32.targetExponent (totalExponent em.roundedMantissa t) ≤ t := by
      rw [targetExponent_eq]
      omega
    rw [shiftToTargetExponent_of_target htarget]
    have hne : ¬ em.roundedMantissa = 0 := by omega
    refine ⟨em.roundedMantissa, t, Nat.pos_of_ne_zero hne, ?_, by omega, hfits, hleast, by omega⟩
    exact dif_neg hne
  · have hcarry : em.roundedMantissa = 2 ^ 24 := by omega
    rw [hcarry, shiftToTargetExponent_carry hleast]
    refine ⟨2 ^ 23, t + 1, by decide, ?_, by decide, by decide, by omega, Or.inr (by decide)⟩
    exact dif_neg (show ¬ 2 ^ 23 = 0 by decide)

/-- Rounding a placed number whose mantissa was extended by zeros gives the number back. -/
theorem roundWithAccuracy_extended (s : Sign) {m : Nat} {e : Int} (h : Placed m e)
    (hm : 0 < m) :
    roundWithAccuracy Format.binary32 s (2 ^ 23 * m) (-23 + e) .exact = .finite s m e hm := by
  have hlog := log2_pow_mul 23 hm
  have htarget : Format.binary32.targetExponent (totalExponent (2 ^ 23 * m) (-23 + e)) = e := by
    have hself := h.targetExponent
    rw [targetExponent_eq] at hself ⊢
    rw [hlog]
    omega
  have hshift : (e - (-23 + e)).toNat = 23 := by omega
  have hfirst : shiftToTargetExponent Format.binary32 (2 ^ 23 * m) (-23 + e) .exact =
      (⟨m, false, false⟩, e) := by
    simp only [shiftToTargetExponent, shiftToExponent, htarget, hshift,
      ExtendedMantissa.ofMantissaAndAccuracy, shiftRight_exact]
    congr 1
    omega
  rw [roundWithAccuracy, hfirst]
  dsimp only
  have hrounded : (⟨m, false, false⟩ : ExtendedMantissa).roundedMantissa = m := rfl
  rw [hrounded, shiftToTargetExponent_of_target (Int.le_of_eq h.targetExponent)]
  exact dif_neg (Nat.ne_of_gt hm)

/-!
## Unpacked numbers
-/

/-- A finite number is placed; the exponent may still be too large to be packed. -/
def Rounded : UnpackedFloat → Prop
  | .finite _ m e _ => Placed m e
  | _ => True

theorem mul_comm_unpacked (u v : UnpackedFloat) :
    UnpackedFloat.mul Format.binary32 u v = UnpackedFloat.mul Format.binary32 v u := by
  have hsign : ∀ s t : Sign, s * t = t * s := by
    intro s t
    cases s <;> cases t <;> rfl
  cases u <;> cases v <;> simp only [UnpackedFloat.mul, hsign, Nat.mul_comm, Int.add_comm]

theorem one_mul_unpacked {u : UnpackedFloat} (h : Rounded u) :
    UnpackedFloat.mul Format.binary32 (.finite .positive (2 ^ 23) (-23) (by decide)) u = u := by
  have hsign : ∀ s : Sign, Sign.positive * s = s := by
    intro s
    cases s <;> rfl
  cases u with
  | notANumber =>
      rfl
  | infinity s =>
      rw [UnpackedFloat.mul, hsign]
  | zero s =>
      rw [UnpackedFloat.mul, hsign]
  | finite s m e hm =>
      rw [UnpackedFloat.mul, hsign]
      exact roundWithAccuracy_extended s h hm

theorem add_zero_unpacked {u : UnpackedFloat} (h : u ≠ .zero .negative) (s : Sign) :
    UnpackedFloat.add Format.binary32 u (.zero s) = u := by
  cases u with
  | zero t =>
      cases t with
      | negative =>
          exact absurd rfl h
      | positive =>
          cases s <;> rfl
  | notANumber =>
      rfl
  | infinity t =>
      rfl
  | finite t m e hm =>
      rfl

theorem round_placed (s : Sign) {m : Nat} {e : Int} (hm : 0 < m) (hmin : -149 ≤ e) :
    ∃ m' e' h, UnpackedFloat.round Format.binary32 s m e = .finite s m' e' h ∧ Placed m' e' := by
  have htarget := targetExponent_eq m e
  rw [UnpackedFloat.round]
  generalize Format.binary32.targetExponent (totalExponent m e) = t at htarget
  rw [decreaseExponent, Nat.shiftLeft_eq, Nat.mul_comm]
  have hlog := log2_pow_mul (e - t).toNat hm
  apply roundWithAccuracy_placed s (Nat.mul_pos (Nat.two_pow_pos _) hm)
  · omega
  · rw [targetExponent_eq, hlog]
    omega

/-- An exact sum is rounded to a placed number; one that cancels becomes a positive zero. -/
theorem normalize_rounded (k : Int) {e : Int} (hmin : -149 ≤ e) :
    Rounded (UnpackedFloat.normalize Format.binary32 k e .positive) ∧
      UnpackedFloat.normalize Format.binary32 k e .positive ≠ .zero .negative := by
  rw [UnpackedFloat.normalize]
  cases hk : compare k 0 with
  | eq =>
      exact ⟨trivial, nofun⟩
  | lt =>
      have hlt : k < 0 := Int.compare_eq_lt.mp hk
      rcases round_placed .negative (by omega : 0 < (-k).toNat) hmin with
        ⟨m', e', h, hround, hplaced⟩
      dsimp only
      rw [hround]
      exact ⟨hplaced, nofun⟩
  | gt =>
      have hlt : 0 < k := Int.compare_eq_gt.mp hk
      rcases round_placed .positive (by omega : 0 < k.toNat) hmin with
        ⟨m', e', h, hround, hplaced⟩
      dsimp only
      rw [hround]
      exact ⟨hplaced, nofun⟩

/-- A sum of placed numbers is placed, and a negative zero only if its first term is one. -/
theorem add_unpacked {u v : UnpackedFloat} (hu : Rounded u) (hv : Rounded v)
    (hne : u ≠ .zero .negative) :
    Rounded (UnpackedFloat.add Format.binary32 u v) ∧
      UnpackedFloat.add Format.binary32 u v ≠ .zero .negative := by
  cases u with
  | notANumber =>
      exact ⟨trivial, nofun⟩
  | infinity s =>
      cases v with
      | infinity t =>
          cases s <;> cases t <;> exact ⟨trivial, nofun⟩
      | notANumber =>
          exact ⟨trivial, nofun⟩
      | zero t =>
          exact ⟨trivial, nofun⟩
      | finite t m e hm =>
          exact ⟨trivial, nofun⟩
  | zero s =>
      cases s with
      | negative =>
          exact absurd rfl hne
      | positive =>
          cases v with
          | zero t =>
              cases t <;> exact ⟨trivial, nofun⟩
          | notANumber =>
              exact ⟨trivial, nofun⟩
          | infinity t =>
              exact ⟨trivial, nofun⟩
          | finite t m e hm =>
              exact ⟨hv, nofun⟩
  | finite s m e hm =>
      cases v with
      | notANumber =>
          exact ⟨trivial, nofun⟩
      | infinity t =>
          exact ⟨trivial, nofun⟩
      | zero t =>
          exact ⟨hu, nofun⟩
      | finite t n f hn =>
          have hmin : -149 ≤ min e f := le_min hu.2.2.1 hv.2.2.1
          rw [UnpackedFloat.add]
          exact normalize_rounded _ hmin

/-!
## Packing
-/

theorem sign_ofBitVec_toBitVec (s : Sign) : Sign.ofBitVec s.toBitVec = s := by
  cases s <;> rfl

theorem unpackSign_packComponents {spec : Format} (s : Sign)
    (exponent : BitVec spec.exponentBits) (mantissa : BitVec spec.mantissaBitsWithoutImplicit) :
    unpackSign (packComponents spec s exponent mantissa) = s.toBitVec := by
  ext i hi
  have hzero : i = 0 := by omega
  subst hzero
  simp [unpackSign, packComponents, BitVec.getLsbD_append, BitVec.getElem_append]

theorem toNat_implicitBit {n : Nat} (v : BitVec n) : (1#1 ++ v).toNat = 2 ^ n + v.toNat := by
  rw [BitVec.toNat_append, ← Nat.shiftLeft_add_eq_or_of_lt v.isLt, Nat.shiftLeft_eq]
  simp

theorem finite_congr {s : Sign} {m n : Nat} {e f : Int} {hm : 0 < m} {hn : 0 < n} (hmn : m = n)
    (hef : e = f) : UnpackedFloat.finite s m e hm = .finite s n f hn := by
  subst hmn hef
  rfl

/-- A number with a leading one is read back, in every format. -/
theorem unpack_normal {spec : Format} (s : Sign) {exponent : BitVec spec.exponentBits}
    {mantissa : BitVec spec.mantissaBitsWithoutImplicit} {m : Nat} {e : Int} (hm : 0 < m)
    (hlast : exponent.toNat + 1 ≠ 2 ^ spec.exponentBits) (hfirst : exponent.toNat ≠ 0)
    (hmEq : 2 ^ spec.mantissaBitsWithoutImplicit + mantissa.toNat = m)
    (heEq : (exponent.toNat : Int) - (spec.exponentBias + spec.mantissaBitsWithoutImplicit) = e) :
    UnpackedFloat.unpack spec (packComponents spec s exponent mantissa) = .finite s m e hm := by
  have hlast' : exponent ≠ -1#_ := by
    intro h
    have hpos := Nat.two_pow_pos spec.exponentBits
    rw [h, BitVec.neg_one_eq_allOnes, BitVec.toNat_allOnes] at hlast
    omega
  have hfirst' : exponent ≠ 0#_ := by
    intro h
    rw [h] at hfirst
    exact hfirst rfl
  unfold UnpackedFloat.unpack
  dsimp only
  simp only [unpackExponent_packComponents, unpackMantissa_packComponents,
    unpackSign_packComponents, sign_ofBitVec_toBitVec]
  rw [if_neg hlast', if_neg hfirst']
  apply finite_congr
  · rw [toNat_implicitBit]
    exact hmEq
  · exact heEq

/-- What is left of a number when it is packed: too large ones become infinite. -/
def packed : UnpackedFloat → UnpackedFloat
  | .finite s m e h => if e ≤ 104 then .finite s m e h else .infinity s
  | u => u

theorem exponentShift :
    ((Format.binary32.exponentBias : Nat) : Int) +
      (Format.binary32.mantissaBitsWithoutImplicit : Nat) = 150 := rfl

theorem unpack_rounded (b : BitVec 32) :
    Rounded (UnpackedFloat.unpack Format.binary32 b) ∧
      packed (UnpackedFloat.unpack Format.binary32 b) = UnpackedFloat.unpack Format.binary32 b := by
  have hmantissa : (@unpackMantissa Format.binary32 b).toNat < 2 ^ 23 :=
    (@unpackMantissa Format.binary32 b).isLt
  have hexponent : (@unpackExponent Format.binary32 b).toNat < 2 ^ 8 :=
    (@unpackExponent Format.binary32 b).isLt
  unfold UnpackedFloat.unpack
  dsimp only
  rw [exponentShift]
  split
  · split
    · exact ⟨trivial, rfl⟩
    · exact ⟨trivial, rfl⟩
  · rename_i hlast
    split
    · rename_i hfirst
      have hzero : (@unpackExponent Format.binary32 b).toNat = 0 :=
        congrArg BitVec.toNat hfirst
      split
      · exact ⟨trivial, rfl⟩
      · rename_i hne
        have hpos : (@unpackMantissa Format.binary32 b).toNat ≠ 0 :=
          fun h => hne (BitVec.eq_of_toNat_eq h)
        constructor
        · exact ⟨by omega, by omega, by omega, Or.inl (by omega)⟩
        · exact if_pos (by omega)
    · rename_i hfirst
      have hlow : (@unpackExponent Format.binary32 b).toNat ≠ 0 :=
        fun h => hfirst (BitVec.eq_of_toNat_eq h)
      have hhigh : (@unpackExponent Format.binary32 b).toNat ≠ 255 :=
        fun h => hlast (BitVec.eq_of_toNat_eq h)
      have hdigits : (1#1 ++ @unpackMantissa Format.binary32 b).toNat =
          2 ^ 23 + (@unpackMantissa Format.binary32 b).toNat := toNat_implicitBit _
      constructor
      · refine ⟨?_, ?_, by omega, Or.inr ?_⟩
        · rw [hdigits]
          omega
        · rw [hdigits]
          omega
        · rw [hdigits]
          omega
      · exact if_pos (by omega)

theorem unpack_subnormal (s : Sign) {mantissa : BitVec 23} {m : Nat} (hm : 0 < m)
    (hmEq : mantissa.toNat = m) :
    UnpackedFloat.unpack Format.binary32 (packComponents Format.binary32 s 0#8 mantissa) =
      .finite s m (-149) hm := by
  have hne : mantissa ≠ 0#23 := by
    intro h
    rw [h, BitVec.toNat_zero] at hmEq
    omega
  unfold UnpackedFloat.unpack
  dsimp only
  simp only [unpackExponent_packComponents, unpackMantissa_packComponents,
    unpackSign_packComponents, sign_ofBitVec_toBitVec]
  rw [exponentShift, if_neg (show ¬ 0#8 = -1#8 by decide), if_pos trivial, dif_neg hne]
  apply finite_congr hmEq
  rw [BitVec.toNat_zero]
  omega

theorem unpack_pack {u : UnpackedFloat} (h : Rounded u) :
    UnpackedFloat.unpack Format.binary32 (UnpackedFloat.pack Format.binary32 u) = packed u := by
  cases u with
  | notANumber =>
      rfl
  | infinity s =>
      cases s <;> rfl
  | zero s =>
      cases s <;> rfl
  | finite s m e hm =>
      rcases h with ⟨_, hlt, hmin, hnormal⟩
      have hbias : (e + (Format.binary32.exponentBias : Nat) +
          (Format.binary32.mantissaBitsWithoutImplicit : Nat)).toNat = (e + 150).toNat := by
        show (e + (127 : Nat) + (23 : Nat)).toNat = _
        omega
      have hdigits : Format.binary32.mantissaBits = 24 := rfl
      rw [packed, UnpackedFloat.pack]
      dsimp only
      rw [hbias, hdigits]
      by_cases hlarge : e ≤ 104
      · rw [if_pos hlarge, if_neg (show ¬ 2 ^ 8 ≤ (e + 150).toNat + 1 by omega)]
        by_cases hfull : 2 ^ 23 ≤ m
        · have hlog := log2_of_le hfull
          have hlog' := log2_of_lt hlt
          have hexponent : (BitVec.ofNat 8 (e + 150).toNat).toNat = (e + 150).toNat := by
            rw [BitVec.toNat_ofNat, Nat.mod_eq_of_lt (by omega)]
          have hmantissa : (BitVec.ofNat 23 m).toNat = m - 2 ^ 23 := by
            rw [BitVec.toNat_ofNat]
            omega
          rw [if_pos (by omega)]
          apply unpack_normal s hm
          · show (BitVec.ofNat 8 (e + 150).toNat).toNat + 1 ≠ 2 ^ 8
            omega
          · omega
          · show 2 ^ 23 + (BitVec.ofNat 23 m).toNat = m
            omega
          · rw [hexponent, exponentShift]
            omega
        · have hlog : m.log2 < 23 := (Nat.log2_lt (Nat.ne_of_gt hm)).mpr (by omega)
          have hmantissa : (BitVec.ofNat 23 m).toNat = m := by
            rw [BitVec.toNat_ofNat, Nat.mod_eq_of_lt (by omega)]
          rw [if_neg (by omega), unpack_subnormal s hm hmantissa]
          apply finite_congr rfl
          omega
      · rw [if_neg hlarge, if_pos (show 2 ^ 8 ≤ (e + 150).toNat + 1 by omega)]
        cases s <;> rfl

theorem pack_packed (u : UnpackedFloat) :
    UnpackedFloat.pack Format.binary32 (packed u) = UnpackedFloat.pack Format.binary32 u := by
  cases u with
  | notANumber =>
      rfl
  | infinity s =>
      rfl
  | zero s =>
      rfl
  | finite s m e hm =>
      by_cases hlarge : e ≤ 104
      · rw [packed, if_pos hlarge]
      · have hbias : (e + (Format.binary32.exponentBias : Nat) +
            (Format.binary32.mantissaBitsWithoutImplicit : Nat)).toNat = (e + 150).toNat := by
          show (e + (127 : Nat) + (23 : Nat)).toNat = _
          omega
        rw [packed, if_neg hlarge, UnpackedFloat.pack, UnpackedFloat.pack]
        dsimp only
        rw [hbias, if_pos (show 2 ^ 8 ≤ (e + 150).toNat + 1 by omega)]

theorem packed_rounded {u : UnpackedFloat} (h : Rounded u) : Rounded (packed u) := by
  cases u with
  | notANumber =>
      trivial
  | infinity s =>
      trivial
  | zero s =>
      trivial
  | finite s m e hm =>
      rw [packed]
      split
      · exact h
      · trivial

theorem packed_ne {u : UnpackedFloat} (h : u ≠ .zero .negative) : packed u ≠ .zero .negative := by
  cases u with
  | notANumber =>
      exact nofun
  | infinity s =>
      exact nofun
  | zero s =>
      exact h
  | finite s m e hm =>
      rw [packed]
      split
      · exact nofun
      · exact nofun

/-!
## Sums and products
-/

def unpacked (x : Binary32) : UnpackedFloat :=
  UnpackedFloat.unpack Format.binary32 x.bits.toBitVec

/-- The number with the bits of a rounded unpacked one. -/
def ofUnpacked (u : UnpackedFloat) : Binary32 :=
  ⟨UInt32.ofBitVec (UnpackedFloat.pack Format.binary32 u)⟩

theorem unpacked_rounded (x : Binary32) :
    Rounded x.unpacked ∧ packed x.unpacked = x.unpacked :=
  unpack_rounded x.bits.toBitVec

theorem unpacked_ofUnpacked {u : UnpackedFloat} (h : Rounded u) :
    (ofUnpacked u).unpacked = packed u :=
  unpack_pack h

theorem ofUnpacked_packed (u : UnpackedFloat) : ofUnpacked (packed u) = ofUnpacked u := by
  rw [ofUnpacked, pack_packed]
  rfl

/-- Reading the bits of a number makes it canonical and loses nothing that arithmetic sees. -/
theorem unpack_toFloat32 (x : Binary32) : x.toFloat32.toModel.unpack = x.unpacked := by
  have hrounded := unpacked_rounded x
  have hpack := unpack_pack hrounded.1
  rw [hrounded.2] at hpack
  exact hpack

theorem add_def (x y : Binary32) :
    x + y = ofUnpacked (UnpackedFloat.add Format.binary32 x.unpacked y.unpacked) := by
  rw [← unpack_toFloat32, ← unpack_toFloat32]
  rfl

theorem mul_def (x y : Binary32) :
    x * y = ofUnpacked (UnpackedFloat.mul Format.binary32 x.unpacked y.unpacked) := by
  rw [← unpack_toFloat32, ← unpack_toFloat32]
  rfl

instance : ZeroTest Binary32 where
  zero_beq_zero := rfl

theorem unpacked_one : (1 : Binary32).unpacked = .finite .positive (2 ^ 23) (-23) (by decide) :=
  rfl

theorem unpacked_zero : (0 : Binary32).unpacked = .zero .positive :=
  rfl

protected theorem mul_comm (x y : Binary32) : x * y = y * x := by
  rw [mul_def, mul_def, mul_comm_unpacked]

/-- Multiplying by one changes no product, whatever the payload of a NaN. -/
theorem one_mul_mul (x y : Binary32) : 1 * x * y = x * y := by
  have hx := unpacked_rounded x
  have hone : (1 * x).unpacked = x.unpacked := by
    rw [mul_def, unpacked_one, one_mul_unpacked hx.1, unpacked_ofUnpacked hx.1]
    exact hx.2
  rw [mul_def, hone, ← mul_def]

/-- A value that a sum from zero can take: canonical, and not a negative zero. -/
def IsSum (x : Binary32) : Prop :=
  ∃ u, Rounded u ∧ u ≠ .zero .negative ∧ x = ofUnpacked u

def IsZero (x : Binary32) : Prop :=
  ∃ s, x.unpacked = .zero s

theorem isSum_zero : IsSum 0 :=
  ⟨.zero .positive, trivial, nofun, rfl⟩

theorem IsSum.add {x : Binary32} (hx : IsSum x) (y : Binary32) : IsSum (x + y) := by
  rcases hx with ⟨u, hu, hne, rfl⟩
  have hy := (unpacked_rounded y).1
  rw [add_def, unpacked_ofUnpacked hu]
  have hsum := add_unpacked (packed_rounded hu) hy (packed_ne hne)
  exact ⟨_, hsum.1, hsum.2, rfl⟩

theorem IsSum.add_zero {x z : Binary32} (hx : IsSum x) (hz : IsZero z) : x + z = x := by
  rcases hx with ⟨u, hu, hne, rfl⟩
  rcases hz with ⟨s, hz⟩
  rw [add_def, unpacked_ofUnpacked hu, hz, add_zero_unpacked (packed_ne hne), ofUnpacked_packed]

theorem IsSum.one_mul {x : Binary32} (hx : IsSum x) : 1 * x = x := by
  rcases hx with ⟨u, hu, _, rfl⟩
  rw [mul_def, unpacked_one, unpacked_ofUnpacked hu, one_mul_unpacked (packed_rounded hu),
    ofUnpacked_packed]

theorem toNat_unpackExponent (x : Binary32) :
    (@unpackExponent Format.binary32 x.bits.toBitVec).toNat = x.bits.toNat / 2 ^ 23 % 2 ^ 8 := by
  rw [← Nat.shiftRight_eq_div_pow]
  simp [unpackExponent]

theorem toNat_exponentField (x : Binary32) :
    x.exponentField.toNat = x.bits.toNat / 2 ^ 23 % 2 ^ 8 := by
  have hand : x.exponentField.toNat = (x.bits.toNat >>> 23) &&& (2 ^ 8 - 1) := by
    simp [exponentField]
  rw [hand, Nat.and_two_pow_sub_one_eq_mod, Nat.shiftRight_eq_div_pow]

/-- Neither an infinity nor a NaN. -/
def isFinite (x : Binary32) : Bool :=
  x.exponentField != 0xff

theorem unpacked_isFinite {x : Binary32} (h : x.isFinite = true) :
    x.unpacked.isFinite = true := by
  have hlast : @unpackExponent Format.binary32 x.bits.toBitVec ≠ -1#8 := by
    intro hEq
    have hfield : x.exponentField = 0xff := by
      apply UInt32.toNat_inj.mp
      rw [toNat_exponentField, ← toNat_unpackExponent, hEq]
      rfl
    rw [isFinite, hfield] at h
    exact absurd h (by decide)
  unfold unpacked UnpackedFloat.unpack
  dsimp only
  rw [if_neg hlast]
  split
  · split
    · rfl
    · rfl
  · rfl

/-- A finite number times a zero of either sign. -/
theorem IsZero.mul {x z : Binary32} (hz : IsZero z) (h : x.isFinite = true) : IsZero (x * z) := by
  have hfinite := unpacked_isFinite h
  have hzero : ∀ s, IsZero (ofUnpacked (.zero s)) :=
    fun s => ⟨s, unpacked_ofUnpacked (u := .zero s) trivial⟩
  rcases hz with ⟨sign, hz⟩
  rw [mul_def, hz]
  cases hx : x.unpacked with
  | zero s =>
      exact hzero _
  | finite s m e hm =>
      exact hzero _
  | notANumber =>
      rw [hx] at hfinite
      cases hfinite
  | infinity s =>
      rw [hx] at hfinite
      cases hfinite

theorem isZero_mul_zero {x : Binary32} (h : x.isFinite = true) : IsZero (x * 0) :=
  IsZero.mul ⟨.positive, unpacked_zero⟩ h

/-!
## Sums of products
-/

/-- A loop that adds products to the sums that it can reach computes the sum of the products. -/
theorem foldl_eq_rowProduct {length : Nat} {step : Binary32 → Nat → Binary32}
    {u v : Nat → Binary32}
    (h : ∀ i < length, ∀ acc, IsSum acc → step acc i = acc + u i * v i) :
    (List.range length).foldl step 0 = rowProduct length u v ∧ IsSum (rowProduct length u v) := by
  apply Loop.foldl_range_invariant isSum_zero
  intro i hi acc hacc
  exact ⟨h i hi acc hacc, hacc.add _⟩

theorem isSum_rowProduct (length : Nat) (u v : Nat → Binary32) : IsSum (rowProduct length u v) :=
  (Loop.foldl_range_invariant isSum_zero fun _ _ _ hacc => ⟨rfl, hacc.add _⟩).2

theorem rowProduct_comm (length : Nat) (u v : Nat → Binary32) :
    rowProduct length u v = rowProduct length v u := by
  apply Loop.foldl_range_congr
  intro i _ acc
  rw [Binary32.mul_comm]

end Binary32
end ConvSweep
