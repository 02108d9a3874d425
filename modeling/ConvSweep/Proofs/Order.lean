import Mathlib
import ConvSweep.Proofs.Binary32

/-!
# Two orders of numbers

Numbers are compared by their values, where a NaN is unordered and the two zeros are
equal, and ranked by their bit patterns, where every pattern has a place of its own.
Both orders can be read off one scale: the bits below the sign, negated for negative
numbers.  A number that is not a NaN compares as its place on this scale, and its
rank only adds a distinction of the two zeros.  So a number that is smaller also has
the smaller rank, and a number of smaller or equal rank is never greater.
-/

namespace ConvSweep
namespace Binary32

open Float.Model Float.Model.UnpackedFloat

/-!
## Unpacked numbers
-/

/-- The bits below the sign of a finite number. -/
def magnitude (m : Nat) (e : Int) : Int :=
  (e + 149) * 2 ^ 23 + m

/-- The bits below the sign, with the sign. -/
def signedBits : UnpackedFloat → Int
  | .infinity s => s.apply (255 * 2 ^ 23)
  | .zero _ => 0
  | .finite s m e _ => s.apply (magnitude m e)
  | .notANumber => 0

/-- A larger exponent counts more than a larger mantissa. -/
theorem magnitude_lt {m n : Nat} {e f : Int} (hm : Placed m e) (hn : Placed n f)
    (h : e < f ∨ e = f ∧ m < n) : magnitude m e < magnitude n f := by
  rcases hm with ⟨_, hm, hemin, _⟩
  rcases hn with ⟨_, _, _, hnormal⟩
  rw [magnitude, magnitude]
  omega

theorem compare_magnitude {m n : Nat} {e f : Int} (hm : Placed m e) (hn : Placed n f) :
    (compare e f).then (compare m n) = compare (magnitude m e) (magnitude n f) := by
  rcases lt_trichotomy e f with hlt | rfl | hgt
  · have hmagnitude := magnitude_lt hm hn (Or.inl hlt)
    rw [compare_lt_iff_lt.mpr hlt, compare_lt_iff_lt.mpr hmagnitude]
    rfl
  · rw [compare_eq_iff_eq.mpr rfl]
    show compare m n = _
    rcases lt_trichotomy m n with hlt | rfl | hgt
    · have hmagnitude := magnitude_lt hm hn (Or.inr ⟨rfl, hlt⟩)
      rw [compare_lt_iff_lt.mpr hlt, compare_lt_iff_lt.mpr hmagnitude]
    · rw [compare_eq_iff_eq.mpr rfl, compare_eq_iff_eq.mpr rfl]
    · have hmagnitude := magnitude_lt hn hm (Or.inr ⟨rfl, hgt⟩)
      rw [compare_gt_iff_gt.mpr hgt, compare_gt_iff_gt.mpr hmagnitude]
  · have hmagnitude := magnitude_lt hn hm (Or.inl hgt)
    rw [compare_gt_iff_gt.mpr hgt, compare_gt_iff_gt.mpr hmagnitude]
    rfl

theorem compare_neg (a b : Int) : compare (-a) (-b) = (compare a b).swap := by
  rcases lt_trichotomy a b with hlt | rfl | hgt
  · rw [compare_gt_iff_gt.mpr (Int.neg_lt_neg hlt), compare_lt_iff_lt.mpr hlt]
    rfl
  · rw [compare_eq_iff_eq.mpr rfl, compare_eq_iff_eq.mpr rfl]
    rfl
  · rw [compare_lt_iff_lt.mpr (Int.neg_lt_neg hgt), compare_gt_iff_gt.mpr hgt]
    rfl

theorem some_lt {a b : Int} (h : a < b) : some .lt = some (compare a b) := by
  rw [compare_lt_iff_lt.mpr h]

theorem some_gt {a b : Int} (h : b < a) : some .gt = some (compare a b) := by
  rw [compare_gt_iff_gt.mpr h]

/-- Not a NaN, and small enough for a word. -/
structure Held (u : UnpackedFloat) : Prop where
  rounded : Rounded u
  packed_eq : packed u = u
  ne_notANumber : u ≠ .notANumber

section

variable {m : Nat} {e : Int} {hm : 0 < m}

theorem Held.magnitude_bounds {s : Sign} (h : Held (.finite s m e hm)) :
    0 < magnitude m e ∧ magnitude m e < 255 * 2 ^ 23 := by
  rcases h.rounded with ⟨_, hlt, hmin, _⟩
  have he : e ≤ 104 := by
    by_contra hlarge
    have hpacked := h.packed_eq
    rw [packed, if_neg hlarge] at hpacked
    cases hpacked
  rw [magnitude]
  omega

theorem Held.negative_bounds (h : Held (.finite .negative m e hm)) :
    -(255 * 2 ^ 23) < signedBits (.finite .negative m e hm) ∧
      signedBits (.finite .negative m e hm) < 0 := by
  have hbounds := h.magnitude_bounds
  rw [signedBits, Sign.apply]
  omega

theorem Held.positive_bounds (h : Held (.finite .positive m e hm)) :
    0 < signedBits (.finite .positive m e hm) ∧
      signedBits (.finite .positive m e hm) < 255 * 2 ^ 23 :=
  h.magnitude_bounds

/-- Finite numbers lie between the infinities. -/
theorem Held.bounds {s : Sign} (h : Held (.finite s m e hm)) :
    -(255 * 2 ^ 23) < signedBits (.finite s m e hm) ∧
      signedBits (.finite s m e hm) < 255 * 2 ^ 23 := by
  cases s with
  | negative =>
      have hbounds := h.negative_bounds
      omega
  | positive =>
      have hbounds := h.positive_bounds
      omega

end

/-- Numbers compare as their signed bits. -/
theorem compare_held {u v : UnpackedFloat} (hu : Held u) (hv : Held v) :
    UnpackedFloat.compare u v = some (compare (signedBits u) (signedBits v)) := by
  cases u with
  | notANumber =>
      exact absurd rfl hu.ne_notANumber
  | infinity s =>
      cases v with
      | notANumber =>
          exact absurd rfl hv.ne_notANumber
      | infinity t =>
          cases s <;> cases t <;> rfl
      | zero t =>
          cases s <;> rfl
      | finite t n f hn =>
          cases s with
          | negative =>
              exact some_lt hv.bounds.1
          | positive =>
              exact some_gt hv.bounds.2
  | zero s =>
      cases v with
      | notANumber =>
          exact absurd rfl hv.ne_notANumber
      | infinity t =>
          cases t <;> rfl
      | zero t =>
          rfl
      | finite t n f hn =>
          cases t with
          | negative =>
              exact some_gt hv.negative_bounds.2
          | positive =>
              exact some_lt hv.positive_bounds.1
  | finite s m e hm =>
      cases v with
      | notANumber =>
          exact absurd rfl hv.ne_notANumber
      | infinity t =>
          cases t with
          | negative =>
              exact some_gt hu.bounds.1
          | positive =>
              exact some_lt hu.bounds.2
      | zero t =>
          cases s with
          | negative =>
              exact some_lt hu.negative_bounds.2
          | positive =>
              exact some_gt hu.positive_bounds.1
      | finite t n f hn =>
          have hmagnitude := compare_magnitude hu.rounded hv.rounded
          cases s with
          | negative =>
              cases t with
              | negative =>
                  show some ((compare e f).then (compare m n)).swap = _
                  rw [hmagnitude, ← compare_neg]
                  rfl
              | positive =>
                  exact some_lt (Int.lt_trans hu.negative_bounds.2 hv.positive_bounds.1)
          | positive =>
              cases t with
              | negative =>
                  exact some_gt (Int.lt_trans hv.negative_bounds.2 hu.positive_bounds.1)
              | positive =>
                  exact congrArg some hmagnitude

/-!
## Bits
-/

theorem toNat_unpackMantissa (x : Binary32) :
    (@unpackMantissa Format.binary32 x.bits.toBitVec).toNat = x.bits.toNat % 2 ^ 23 := by
  simp [unpackMantissa]

theorem toNat_unpackSign (x : Binary32) :
    (@unpackSign Format.binary32 x.bits.toBitVec).toNat = x.bits.toNat / 2 ^ 31 := by
  have hlt : x.bits.toNat < 2 ^ 32 := x.bits.toNat_lt
  rw [← Nat.mod_eq_of_lt (show x.bits.toNat / 2 ^ 31 < 2 ^ 1 by omega),
    ← Nat.shiftRight_eq_div_pow]
  simp [unpackSign]

theorem isNegative_iff (x : Binary32) : x.isNegative = true ↔ 2 ^ 31 ≤ x.bits.toNat := by
  rw [isNegative, decide_eq_true_eq, ge_iff_le, UInt32.le_iff_toNat_le]
  rfl

theorem toNat_fraction (x : Binary32) : x.fraction.toNat = x.bits.toNat % 2 ^ 23 := by
  have hand : x.fraction.toNat = x.bits.toNat &&& (2 ^ 23 - 1) := by
    simp [fraction]
  rw [hand, Nat.and_two_pow_sub_one_eq_mod]

theorem isNaN_iff (x : Binary32) :
    x.isNaN = true ↔ x.bits.toNat / 2 ^ 23 % 2 ^ 8 = 255 ∧ x.bits.toNat % 2 ^ 23 ≠ 0 := by
  rw [isNaN, Bool.and_eq_true, beq_iff_eq, bne_iff_ne, ← toNat_exponentField, ← toNat_fraction,
    ← UInt32.toNat_inj, ne_eq, ne_eq, ← UInt32.toNat_inj]
  rfl

/-- The place of a number on the scale of numbers, one for both zeros: the bits below the sign,
negated for a negative number. -/
def place (x : Binary32) : Int :=
  if x.isNegative then 0x80000000 - (x.bits.toNat : Int) else x.bits.toNat

theorem unpacked_of_isNaN {x : Binary32} (h : x.isNaN = true) : x.unpacked = .notANumber := by
  rcases (isNaN_iff x).mp h with ⟨hexponent, hfraction⟩
  rw [← toNat_unpackExponent] at hexponent
  rw [← toNat_unpackMantissa] at hfraction
  have hlast : @unpackExponent Format.binary32 x.bits.toBitVec = -1#8 :=
    BitVec.eq_of_toNat_eq hexponent
  have hne : @unpackMantissa Format.binary32 x.bits.toBitVec ≠ 0#23 := by
    intro h
    rw [h] at hfraction
    exact hfraction rfl
  unfold unpacked UnpackedFloat.unpack
  dsimp only
  rw [if_pos hlast, if_neg hne]

theorem apply_ofBitVec (b : BitVec 1) (k : Int) :
    (Sign.ofBitVec b).apply k = if b.toNat = 0 then k else -k := by
  rw [Sign.ofBitVec]
  by_cases h : b = 0#1
  · rw [if_pos h, h]
    rfl
  · have hne : b.toNat ≠ 0 := fun hzero => h (BitVec.eq_of_toNat_eq hzero)
    rw [if_neg h, if_neg hne]
    rfl

/-- The place of a number is read off its fields. -/
theorem place_eq (x : Binary32) :
    x.place = (Sign.ofBitVec (@unpackSign Format.binary32 x.bits.toBitVec)).apply
      ((@unpackExponent Format.binary32 x.bits.toBitVec).toNat * 2 ^ 23 +
        (@unpackMantissa Format.binary32 x.bits.toBitVec).toNat) := by
  have hlt : x.bits.toNat < 2 ^ 32 := x.bits.toNat_lt
  rw [apply_ofBitVec, toNat_unpackSign, toNat_unpackExponent, toNat_unpackMantissa, place]
  by_cases hsign : x.isNegative = true
  · have hle := (isNegative_iff x).mp hsign
    rw [if_pos hsign, if_neg (by omega)]
    omega
  · have hle := (isNegative_iff x).not.mp hsign
    rw [if_neg hsign, if_pos (by omega)]
    omega

/-- A number that is not a NaN is held in its word, and its signed bits are its place. -/
theorem held_unpacked {x : Binary32} (h : x.isNaN = false) :
    Held x.unpacked ∧ signedBits x.unpacked = x.place := by
  have hrounded := unpacked_rounded x
  suffices hbits : x.unpacked ≠ .notANumber ∧ signedBits x.unpacked = x.place from
    ⟨⟨hrounded.1, hrounded.2, hbits.1⟩, hbits.2⟩
  have hnumber := (isNaN_iff x).not.mp (Bool.not_eq_true _ ▸ h)
  rw [← toNat_unpackExponent, ← toNat_unpackMantissa] at hnumber
  rw [place_eq]
  unfold unpacked UnpackedFloat.unpack
  dsimp only
  rw [exponentShift]
  by_cases hlast : @unpackExponent Format.binary32 x.bits.toBitVec = -1#8
  · have hexponent : (@unpackExponent Format.binary32 x.bits.toBitVec).toNat = 255 :=
      congrArg BitVec.toNat hlast
    have hmantissa : @unpackMantissa Format.binary32 x.bits.toBitVec = 0#23 :=
      BitVec.eq_of_toNat_eq (not_not.mp fun hne => hnumber ⟨hexponent, hne⟩)
    rw [if_pos hlast, if_pos hmantissa, hexponent, hmantissa]
    exact ⟨nofun, rfl⟩
  · rw [if_neg hlast]
    by_cases hfirst : @unpackExponent Format.binary32 x.bits.toBitVec = 0#8
    · have hexponent : (@unpackExponent Format.binary32 x.bits.toBitVec).toNat = 0 :=
        congrArg BitVec.toNat hfirst
      rw [if_pos hfirst, hexponent]
      by_cases hmantissa : @unpackMantissa Format.binary32 x.bits.toBitVec = 0#23
      · rw [dif_pos hmantissa, hmantissa]
        refine ⟨nofun, ?_⟩
        cases Sign.ofBitVec (@unpackSign Format.binary32 x.bits.toBitVec) <;> rfl
      · rw [dif_neg hmantissa]
        refine ⟨nofun, ?_⟩
        rw [signedBits, magnitude]
        congr 1
    · rw [if_neg hfirst]
      refine ⟨nofun, ?_⟩
      have hdigits : (1#1 ++ @unpackMantissa Format.binary32 x.bits.toBitVec).toNat =
          2 ^ 23 + (@unpackMantissa Format.binary32 x.bits.toBitVec).toNat := toNat_implicitBit _
      rw [signedBits, magnitude, hdigits]
      congr 1
      omega

/-!
## The numeric order
-/

theorem compare_unpacked {x y : Binary32} (hx : x.isNaN = false) (hy : y.isNaN = false) :
    UnpackedFloat.compare x.unpacked y.unpacked = some (compare x.place y.place) := by
  rcases held_unpacked hx with ⟨hxheld, hxplace⟩
  rcases held_unpacked hy with ⟨hyheld, hyplace⟩
  rw [compare_held hxheld hyheld, hxplace, hyplace]

/-- A NaN is unordered. -/
theorem compare_unpacked_of_isNaN {x y : Binary32} (h : x.isNaN = true ∨ y.isNaN = true) :
    UnpackedFloat.compare x.unpacked y.unpacked = none := by
  rcases h with hx | hy
  · rw [unpacked_of_isNaN hx]
    rfl
  · rw [unpacked_of_isNaN hy]
    cases x.unpacked <;> rfl

/-- Two numbers that compare in some way are not NaNs, and compare as their places. -/
theorem compare_unpacked_iff {x y : Binary32} {o : Ordering} :
    UnpackedFloat.compare x.unpacked y.unpacked = some o ↔
      x.isNaN = false ∧ y.isNaN = false ∧ compare x.place y.place = o := by
  cases hx : x.isNaN with
  | true =>
      rw [compare_unpacked_of_isNaN (Or.inl hx)]
      exact ⟨nofun, nofun⟩
  | false =>
      cases hy : y.isNaN with
      | true =>
          rw [compare_unpacked_of_isNaN (Or.inr hy)]
          exact ⟨nofun, nofun⟩
      | false =>
          rw [compare_unpacked hx hy, Option.some_inj]
          exact ⟨fun h => ⟨rfl, rfl, h⟩, fun h => h.2.2⟩

theorem lt_eq_compare (x y : Binary32) :
    x.lt y = (UnpackedFloat.compare x.unpacked y.unpacked == some .lt) := by
  rw [← unpack_toFloat32, ← unpack_toFloat32, lt, Bool.eq_iff_iff, decide_eq_true_eq]
  show decide (x.toFloat32.toModel < y.toFloat32.toModel) = true ↔ _
  rw [decide_eq_true_eq]
  rfl

theorem beq_eq_compare (x y : Binary32) :
    (x == y) = (UnpackedFloat.compare x.unpacked y.unpacked == some .eq) := by
  rw [← unpack_toFloat32, ← unpack_toFloat32]
  rfl

theorem le_eq_compare (x y : Binary32) :
    x.le y = (UnpackedFloat.compare x.unpacked y.unpacked).any (·.isLE) := by
  rw [← unpack_toFloat32, ← unpack_toFloat32, le, Bool.eq_iff_iff, decide_eq_true_eq]
  show decide (x.toFloat32.toModel ≤ y.toFloat32.toModel) = true ↔ _
  rw [decide_eq_true_eq]
  rfl

theorem lt_iff {x y : Binary32} :
    x.lt y = true ↔ x.isNaN = false ∧ y.isNaN = false ∧ x.place < y.place := by
  rw [lt_eq_compare, beq_iff_eq, compare_unpacked_iff, compare_lt_iff_lt]

theorem beq_iff {x y : Binary32} :
    (x == y) = true ↔ x.isNaN = false ∧ y.isNaN = false ∧ x.place = y.place := by
  rw [beq_eq_compare, beq_iff_eq, compare_unpacked_iff, compare_eq_iff_eq]

theorem le_iff {x y : Binary32} :
    x.le y = true ↔ x.isNaN = false ∧ y.isNaN = false ∧ x.place ≤ y.place := by
  have hcases : x.le y = true ↔ x.lt y = true ∨ (x == y) = true := by
    rw [le_eq_compare, lt_eq_compare, beq_eq_compare, beq_iff_eq, beq_iff_eq]
    cases UnpackedFloat.compare x.unpacked y.unpacked with
    | none =>
        exact ⟨nofun, nofun⟩
    | some o =>
        cases o <;> decide
  rw [hcases, lt_iff, beq_iff, ← and_or_left, ← and_or_left, ← Int.le_iff_lt_or_eq]

theorem beq_self {x : Binary32} (h : x.isNaN = false) : (x == x) = true :=
  beq_iff.mpr ⟨h, h, rfl⟩

/-- Numbers that are not NaNs are comparable. -/
theorem lt_or_beq_or_lt {x y : Binary32} (hx : x.isNaN = false) (hy : y.isNaN = false) :
    x.lt y = true ∨ (x == y) = true ∨ y.lt x = true := by
  rcases lt_trichotomy x.place y.place with hlt | hEq | hgt
  · exact Or.inl (lt_iff.mpr ⟨hx, hy, hlt⟩)
  · exact Or.inr (Or.inl (beq_iff.mpr ⟨hx, hy, hEq⟩))
  · exact Or.inr (Or.inr (lt_iff.mpr ⟨hy, hx, hgt⟩))

/-- What a limit does not exceed is smaller than what exceeds the limit, unless it is a NaN. -/
theorem lt_of_not_lt_of_lt {x y t : Binary32} (hy : y.isNaN = false) (hty : ¬ t.lt y = true)
    (htx : t.lt x = true) : y.lt x = true := by
  rcases lt_iff.mp htx with ⟨ht, hx, hplace⟩
  have hle : y.place ≤ t.place := by
    apply Int.not_lt.mp
    intro hlt
    exact hty (lt_iff.mpr ⟨ht, hy, hlt⟩)
  exact lt_iff.mpr ⟨hy, hx, Int.lt_of_le_of_lt hle hplace⟩

/-!
## The order of bit patterns
-/

/-- Ranks follow the places, with the zeros told apart. -/
theorem rank_cases (x : Binary32) :
    2 ^ 31 ≤ x.bits.toNat ∧ x.place = 2 ^ 31 - x.bits.toNat ∧ (x.rank : Int) = 2 ^ 31 - 1 + x.place ∨
      x.bits.toNat < 2 ^ 31 ∧ x.place = x.bits.toNat ∧ (x.rank : Int) = 2 ^ 31 + x.place := by
  have hlt : x.bits.toNat < 2 ^ 32 := x.bits.toNat_lt
  rw [place, rank]
  by_cases hsign : x.isNegative = true
  · have hle := (isNegative_iff x).mp hsign
    rw [if_pos hsign, if_pos hsign]
    omega
  · have hle := (isNegative_iff x).not.mp hsign
    rw [if_neg hsign, if_neg hsign]
    omega

theorem rank_injective {x y : Binary32} (h : x.rank = y.rank) : x = y := by
  have hx := rank_cases x
  have hy := rank_cases y
  have hbits : x.bits.toNat = y.bits.toNat := by omega
  exact congrArg mk (UInt32.toNat_inj.mp hbits)

/-- A number that is smaller has the smaller rank. -/
theorem rank_lt_of_lt {x y : Binary32} (h : x.lt y = true) : x.rank < y.rank := by
  have hplace := (lt_iff.mp h).2.2
  have hx := rank_cases x
  have hy := rank_cases y
  omega

end Binary32
end ConvSweep
