import Mathlib
import ConvSweep.Proofs.Binary64

/-!
# Signs in double precision

A number with a sign is a zero of either sign or a number with all its digits.  Its
magnitude loses nothing.  A difference is formed at the smaller exponent, where it is
an integer, and then rounded, so its magnitude is the exact one with 53 significant
bits.
-/

namespace ConvSweep
namespace Binary64

open Float.Model Float.Model.UnpackedFloat Rounding

/-!
## Numbers with a sign
-/

/-- The double-precision number is the rational one: a zero of either sign, or a number with all
its digits. -/
inductive Carries : Float → Rat → Prop
  | zero {x : Float} {s : Sign} (h : x.toModel.unpack = .zero s) : Carries x 0
  | normal {x : Float} {s : Sign} {m : Nat} {e : Int} {hm : 0 < m}
      (h : x.toModel.unpack = .finite s m e hm) (hn : Normal m e) :
      Carries x ((s.apply m : Int) * 2 ^ e)

theorem abs_apply (s : Sign) (m : Nat) (e : Int) :
    |((s.apply m : Int) : Rat) * 2 ^ e| = m * 2 ^ e := by
  rw [abs_mul, abs_of_pos (two_zpow_pos e)]
  cases s with
  | negative =>
      rw [Sign.apply, Int.cast_neg, abs_neg, Int.cast_natCast, Nat.abs_cast]
  | positive =>
      rw [Sign.apply, Int.cast_natCast, Nat.abs_cast]

theorem carries_zero (s : Sign) : Carries (.ofModel (.pack (.zero s))) 0 := by
  cases s <;> exact .zero rfl

theorem carries_normal {u : UnpackedFloat} {s : Sign} {m : Nat} {e : Int} {hm : 0 < m}
    (hu : u = .finite s m e hm) (h : Normal m e) :
    Carries (.ofModel (.pack u)) ((s.apply m : Int) * 2 ^ e) := by
  rw [hu]
  exact .normal (unpack_pack_normal s h) h

variable {x y : Float} {r s : Rat}

theorem Carries.isFinite (h : Carries x r) : x.isFinite = true := by
  show x.toModel.unpack.isFinite = true
  cases h with
  | zero h =>
      rw [h]
      rfl
  | normal h hn =>
      rw [h]
      rfl

theorem Carries.abs (h : Carries x r) : Represents x.abs |r| := by
  show Represents (.ofModel (.pack x.toModel.unpack.abs)) _
  cases h with
  | zero h =>
      rw [h, abs_zero]
      exact represents_zero
  | normal h hn =>
      rw [h, abs_apply]
      exact represents_normal rfl hn

/-!
## Differences
-/

theorem carries_round (s : Sign) {m : Nat} {e : Int} (hm : 0 < m)
    (h : Moderate ((m : Rat) * 2 ^ e)) :
    ∃ d, Carries (.ofModel (.pack (UnpackedFloat.round Format.binary64 s m e))) d ∧
      |d| = significant 53 (m * 2 ^ e) := by
  rcases round_normal s hm h with ⟨m', e', hm', hround, hnormal, hvalue⟩
  rw [← hvalue]
  exact ⟨_, carries_normal hround hnormal, abs_apply _ _ _⟩

/-- A signed integer is rounded as its magnitude is. -/
theorem carries_normalize {k e : Int} (h : k = 0 ∨ Moderate |(k : Rat) * 2 ^ e|) :
    ∃ d, Carries (.ofModel (.pack (UnpackedFloat.normalize Format.binary64 k e .positive))) d ∧
      |d| = significant 53 |(k : Rat) * 2 ^ e| := by
  have hmagnitude : |(k : Rat) * 2 ^ e| = (k.natAbs : Nat) * 2 ^ e := by
    rw [abs_mul, abs_of_pos (two_zpow_pos e), Nat.cast_natAbs, Int.cast_abs]
  rw [hmagnitude] at h ⊢
  rw [UnpackedFloat.normalize]
  rcases lt_trichotomy k 0 with hneg | hzero | hpos
  · have hnat : (-k).toNat = k.natAbs := by omega
    rw [compare_lt_iff_lt.mpr hneg]
    dsimp only
    rw [hnat]
    exact carries_round .negative (by omega) (h.resolve_left hneg.ne)
  · rw [hzero, compare_eq_iff_eq.mpr rfl, Int.natAbs_zero, Nat.cast_zero, zero_mul,
      significant_of_nonpos le_rfl]
    exact ⟨0, carries_zero _, abs_zero⟩
  · have hnat : k.toNat = k.natAbs := by omega
    rw [compare_gt_iff_gt.mpr hpos]
    dsimp only
    rw [hnat]
    exact carries_round .positive (by omega) (h.resolve_left hpos.ne')

/-- The same number with a smaller exponent. -/
theorem decreaseExponent_value (s : Sign) (m : Nat) {e k : Int} (h : k ≤ e) :
    ((s.apply (decreaseExponent m e k).1 : Int) : Rat) * 2 ^ k = (s.apply m : Int) * 2 ^ e := by
  have hsplit : e = ((e - k).toNat : Nat) + k := by omega
  have hvalue : ((decreaseExponent m e k).1 : Rat) * 2 ^ k = m * 2 ^ e := by
    show ((m <<< (e - k).toNat : Nat) : Rat) * 2 ^ k = m * 2 ^ e
    conv_rhs => rw [hsplit]
    rw [Nat.shiftLeft_eq, zpow_add₀ (by norm_num), zpow_natCast]
    push_cast
    ring
  cases s with
  | negative =>
      rw [Sign.apply, Sign.apply]
      push_cast
      rw [neg_mul, neg_mul, hvalue]
  | positive =>
      rw [Sign.apply, Sign.apply]
      push_cast
      exact hvalue

/-- The magnitude of a difference is the exact one, rounded. -/
theorem Carries.sub (hx : Carries x r) (hy : Carries y s) (h : r = s ∨ Moderate |r - s|) :
    ∃ d, Carries (x - y) d ∧ |d| = significant 53 |r - s| := by
  show ∃ d, Carries (.ofModel (.pack
    (UnpackedFloat.sub Format.binary64 x.toModel.unpack y.toModel.unpack))) d ∧ _
  cases hx with
  | zero hx =>
      rw [hx]
      cases hy with
      | zero hy =>
          rw [hy, sub_zero, abs_zero, significant_of_nonpos le_rfl]
          refine ⟨0, ?_, abs_zero⟩
          rw [UnpackedFloat.sub]
          split
          · exact carries_zero _
          · exact carries_zero _
      | normal hy hn =>
          rw [hy, zero_sub, abs_neg, abs_apply, significant_of_le hn.high]
          exact ⟨_, carries_normal rfl hn, abs_apply _ _ _⟩
  | @normal sx m e hm hx hm' =>
      rw [hx]
      cases hy with
      | zero hy =>
          rw [hy, sub_zero, abs_apply, significant_of_le hm'.high]
          exact ⟨_, carries_normal rfl hm', abs_apply _ _ _⟩
      | @normal sy n f hn hy hn' =>
          rw [hy]
          have hvalue : (((sx.apply (decreaseExponent m e (min e f)).1 -
              sy.apply (decreaseExponent n f (min e f)).1 : Int) : Rat)) * 2 ^ (min e f) =
                (sx.apply m : Int) * 2 ^ e - (sy.apply n : Int) * 2 ^ f := by
            rw [Int.cast_sub, sub_mul, decreaseExponent_value sx m (min_le_left e f),
              decreaseExponent_value sy n (min_le_right e f)]
          rw [← hvalue] at h ⊢
          apply carries_normalize
          rcases h with hsame | hmoderate
          · left
            rw [hsame, sub_self, mul_eq_zero, Int.cast_eq_zero] at hvalue
            exact hvalue.resolve_right (two_zpow_pos _).ne'
          · exact Or.inr hmoderate

end Binary64
end ConvSweep
