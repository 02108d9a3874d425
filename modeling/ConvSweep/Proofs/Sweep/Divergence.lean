import Mathlib
import ConvSweep.Proofs.Widening
import ConvSweep.Sweep.Divergence

/-!
# What the largest relative error tells

The relative error of two finite elements is the exact one, but for two roundings.  If
one of them is an infinity or a NaN, the quotient is a NaN, and the maximum passes over
it.  So the largest error speaks of the places where both tensors hold finite numbers
and of no others: below a bound it says that all these places are within the bound, and
a zero says that they are equal.
-/

namespace ConvSweep

open Float.Model Float.Model.UnpackedFloat Rounding

/-!
## Infinities and NaNs
-/

namespace Binary64

variable {x y : Float} {r s : Rat}

def plusInfinity : Float :=
  .ofModel (.pack (.infinity .positive))

theorem isNaN_iff : x.isNaN = true ↔ x.toModel.unpack = .notANumber := by
  show x.toModel.unpack.isNaN = true ↔ _
  cases x.toModel.unpack with
  | notANumber =>
      exact ⟨fun _ => rfl, fun _ => rfl⟩
  | infinity s =>
      exact ⟨nofun, nofun⟩
  | zero s =>
      exact ⟨nofun, nofun⟩
  | finite s m e hm =>
      exact ⟨nofun, nofun⟩

theorem isNaN_pack {u : UnpackedFloat} (h : u = .notANumber) :
    (Float.ofModel (.pack u)).isNaN = true := by
  rw [h]
  rfl

theorem isNaN_abs (h : x.isNaN = true) : x.abs.isNaN = true := by
  apply isNaN_pack
  rw [isNaN_iff.mp h]
  rfl

theorem isNaN_div (h : x.isNaN = true) (y : Float) : (x / y).isNaN = true := by
  apply isNaN_pack
  rw [isNaN_iff.mp h]
  rfl

theorem isNaN_sub (h : x.isNaN = true ∨ y.isNaN = true) : (x - y).isNaN = true := by
  apply isNaN_pack
  rcases h with hx | hy
  · rw [isNaN_iff.mp hx]
    rfl
  · rw [isNaN_iff.mp hy]
    cases x.toModel.unpack <;> rfl

theorem isNaN_or_infinite (h : x.isFinite = false) :
    x.isNaN = true ∨ ∃ s, x.toModel.unpack = .infinity s := by
  have hfinite : x.toModel.unpack.isFinite = false := h
  rw [isNaN_iff]
  cases hx : x.toModel.unpack with
  | notANumber =>
      exact Or.inl rfl
  | infinity s =>
      exact Or.inr ⟨s, rfl⟩
  | zero s =>
      rw [hx] at hfinite
      cases hfinite
  | finite s m e hm =>
      rw [hx] at hfinite
      cases hfinite

theorem abs_of_infinite (h : x.isFinite = false) (hnan : ¬ x.isNaN = true) :
    x.abs = plusInfinity := by
  rcases (isNaN_or_infinite h).resolve_left hnan with ⟨s, hx⟩
  show Float.ofModel (.pack x.toModel.unpack.abs) = _
  rw [hx]
  rfl

theorem not_isFinite_pack {u : UnpackedFloat} (h : u.isFinite = false) :
    (Float.ofModel (.pack u)).isFinite = false := by
  cases u with
  | notANumber =>
      rfl
  | infinity s =>
      cases s <;> rfl
  | zero s =>
      cases h
  | finite s m e hm =>
      cases h

/-- Nothing finite comes of a difference with an infinity or a NaN. -/
theorem not_isFinite_sub_unpacked {u v : UnpackedFloat}
    (h : u.isFinite = false ∨ v.isFinite = false) :
    (UnpackedFloat.sub Format.binary64 u v).isFinite = false := by
  cases u with
  | notANumber =>
      rfl
  | infinity s =>
      cases v with
      | notANumber =>
          rfl
      | infinity t =>
          cases s <;> cases t <;> rfl
      | zero t =>
          rfl
      | finite t n f hn =>
          rfl
  | zero s =>
      cases v with
      | notANumber =>
          rfl
      | infinity t =>
          rfl
      | zero t =>
          rcases h with h | h <;> cases h
      | finite t n f hn =>
          rcases h with h | h <;> cases h
  | finite s m e hm =>
      cases v with
      | notANumber =>
          rfl
      | infinity t =>
          rfl
      | zero t =>
          rcases h with h | h <;> cases h
      | finite t n f hn =>
          rcases h with h | h <;> cases h

theorem not_isFinite_sub (h : x.isFinite = false ∨ y.isFinite = false) :
    (x - y).isFinite = false :=
  not_isFinite_pack (not_isFinite_sub_unpacked h)

theorem Represents.not_isNaN (h : Represents x r) : ¬ x.isNaN = true := by
  rw [isNaN_iff]
  cases h with
  | zero h =>
      rw [h]
      exact nofun
  | normal h _ =>
      rw [h]
      exact nofun

theorem Represents.lt_plusInfinity (h : Represents x r) :
    x < plusInfinity ∧ ¬ plusInfinity < x := by
  rw [lt_iff_unpack, lt_iff_unpack]
  cases h with
  | zero h =>
      rw [h]
      exact ⟨rfl, nofun⟩
  | normal h _ =>
      rw [h]
      exact ⟨rfl, nofun⟩

theorem represents_one : Represents 1 1 := by
  have hunpack : (1 : Float).toModel.unpack =
      .finite .positive (2 ^ 52) (-52) (by decide) := rfl
  have h : Represents 1 (((2 ^ 52 : Nat) : Rat) * 2 ^ (-52 : Int)) :=
    .normal hunpack ⟨le_rfl, by decide, by decide, by decide⟩
  norm_num at h
  exact h

/-!
## The larger number
-/

theorem Represents.maxNumber (hx : Represents x r) (hy : Represents y s) :
    Represents (maxNumber x y) (max r s) := by
  rw [ConvSweep.maxNumber, if_neg hx.not_isNaN, if_neg hy.not_isNaN]
  by_cases hlt : x < y
  · rw [if_pos hlt, max_eq_right ((hx.lt_iff hy).mp hlt).le]
    exact hy
  · rw [if_neg hlt, max_eq_left (not_lt.mp ((hx.lt_iff hy).not.mp hlt))]
    exact hx

theorem Represents.maxNumber_of_isNaN (hx : Represents x r) (hy : y.isNaN = true) :
    ConvSweep.maxNumber x y = x := by
  rw [ConvSweep.maxNumber, if_neg hx.not_isNaN, if_pos hy]

theorem maxNumber_infinity_left (hy : y = plusInfinity ∨ ∃ s, Represents y s) :
    maxNumber plusInfinity y = plusInfinity := by
  rcases hy with rfl | ⟨s, hy⟩
  · rfl
  · rw [maxNumber, if_neg (show ¬ plusInfinity.isNaN = true by decide), if_neg hy.not_isNaN,
      if_neg hy.lt_plusInfinity.2]

theorem maxNumber_infinity_right (hx : x = plusInfinity ∨ ∃ r, Represents x r) :
    maxNumber x plusInfinity = plusInfinity := by
  rcases hx with rfl | ⟨r, hx⟩
  · rfl
  · rw [maxNumber, if_neg hx.not_isNaN, if_neg (show ¬ plusInfinity.isNaN = true by decide),
      if_pos hx.lt_plusInfinity.1]

end Binary64

/-!
## Relative errors
-/

/-- The relative error of two numbers; its difference and its quotient are rounded. -/
def roundedError (r s : Rat) : Rat :=
  significant 53 (significant 53 |r - s| / max (max |r| |s|) 1)

theorem significant_pos {x : Rat} (h : 0 < x) : 0 < significant 53 x :=
  (two_zpow_pos _).trans_le (significant_bounds (by decide) h).1

theorem largest_pos (r s : Rat) : 0 < max (max |r| |s|) 1 :=
  lt_of_lt_of_le one_pos (le_max_right _ _)

/-- Only equal numbers have no error. -/
theorem roundedError_le_zero_iff {r s : Rat} : roundedError r s ≤ 0 ↔ r = s := by
  constructor
  · intro h
    by_contra hne
    have hdifference := significant_pos (abs_pos.mpr (sub_ne_zero.mpr hne))
    exact absurd (significant_pos (div_pos hdifference (largest_pos r s))) (not_lt.mpr h)
  · rintro rfl
    rw [roundedError, sub_self, abs_zero, significant_of_nonpos le_rfl, zero_div,
      significant_of_nonpos le_rfl]

/-- Both roundings together change the error by less than one part in `2 ^ 51`. -/
theorem abs_roundedError_sub_le (r s : Rat) :
    |roundedError r s - |r - s| / max (max |r| |s|) 1| ≤
      |r - s| / max (max |r| |s|) 1 / 2 ^ 51 := by
  have hscale := largest_pos r s
  have hnonneg := abs_nonneg (r - s)
  rw [roundedError]
  generalize max (max |r| |s|) 1 = scale at hscale ⊢
  generalize |r - s| = difference at hnonneg ⊢
  have hrounded : |significant 53 difference - difference| ≤ difference / 2 ^ 53 :=
    abs_significant_sub_le hnonneg
  have hdivided : |significant 53 difference / scale - difference / scale| ≤
      difference / scale / 2 ^ 53 := by
    rw [← sub_div, abs_div, abs_of_pos hscale, div_right_comm]
    exact div_le_div_of_nonneg_right hrounded hscale.le
  have hquotient : |significant 53 (significant 53 difference / scale) -
      significant 53 difference / scale| ≤ significant 53 difference / scale / 2 ^ 53 :=
    abs_significant_sub_le (div_nonneg (significant_nonneg (by decide) difference) hscale.le)
  have hexact : 0 ≤ difference / scale := div_nonneg hnonneg hscale.le
  generalize difference / scale = exact at hdivided hexact ⊢
  generalize significant 53 difference / scale = quotient at hquotient hdivided ⊢
  rw [abs_le] at hquotient hdivided ⊢
  norm_num at hquotient hdivided ⊢
  constructor <;> linarith

namespace Binary32

open Binary64

variable {x y : Binary32}

theorem abs_toFloat (x : Binary32) (hnan : ¬ x.toFloat.isNaN = true) :
    x.toFloat.abs = plusInfinity ∨ ∃ r, Represents x.toFloat.abs r := by
  cases hfinite : x.isFinite with
  | true =>
      exact Or.inr ⟨_, (carries_toFloat hfinite).abs⟩
  | false =>
      exact Or.inl (abs_of_infinite ((isFinite_toFloat x).trans hfinite) hnan)

theorem represents_relativeError (hx : x.isFinite = true) (hy : y.isFinite = true) :
    Represents (Tensor.relativeError x.toFloat y.toFloat) (roundedError x.toRat y.toRat) := by
  have hbetween := between_abs_sub hx hy
  have hdifference : x.toRat = y.toRat ∨ Moderate |x.toRat - y.toRat| := by
    rcases hbetween.moderate (by decide) (by decide) with hzero | hmoderate
    · exact Or.inl (sub_eq_zero.mp (abs_eq_zero.mp hzero))
    · exact Or.inr hmoderate
  rcases (carries_toFloat hx).sub (carries_toFloat hy) hdifference with ⟨d, hd, hvalue⟩
  have hnumerator := hd.abs
  rw [hvalue] at hnumerator
  have hdenominator := ((carries_toFloat hx).abs.maxNumber (carries_toFloat hy).abs).maxNumber
    represents_one
  have hscale : Between 0 128 (max (max |x.toRat| |y.toRat|) 1) := by
    right
    rw [zpow_zero]
    refine ⟨le_max_right _ _, max_le (max_le (abs_toRat_lt hx).le (abs_toRat_lt hy).le) ?_⟩
    norm_num
  have hne : max (max |x.toRat| |y.toRat|) 1 ≠ 0 :=
    (lt_of_lt_of_le one_pos (le_max_right _ _)).ne'
  exact hnumerator.div hdenominator hne
    ((hbetween.significant.div hscale hne).moderate (by decide) (by decide))

/-- An infinity or a NaN in one of the elements makes a NaN of the error. -/
theorem isNaN_relativeError (h : ¬ (x.isFinite = true ∧ y.isFinite = true)) :
    (Tensor.relativeError x.toFloat y.toFloat).isNaN = true := by
  have hwide : x.toFloat.isFinite = false ∨ y.toFloat.isFinite = false := by
    rw [isFinite_toFloat, isFinite_toFloat]
    rwa [not_and_or, Bool.not_eq_true, Bool.not_eq_true] at h
  by_cases hnan : (x.toFloat - y.toFloat).isNaN = true
  · exact isNaN_div (isNaN_abs hnan) _
  · -- an infinite difference is divided by the infinite magnitude of its operand
    have hx : ¬ x.toFloat.isNaN = true := fun hx => hnan (isNaN_sub (Or.inl hx))
    have hy : ¬ y.toFloat.isNaN = true := fun hy => hnan (isNaN_sub (Or.inr hy))
    have hlargest : maxNumber x.toFloat.abs y.toFloat.abs = plusInfinity := by
      rcases hwide with hinfinite | hinfinite
      · rw [abs_of_infinite hinfinite hx]
        exact maxNumber_infinity_left (abs_toFloat y hy)
      · rw [abs_of_infinite hinfinite hy]
        exact maxNumber_infinity_right (abs_toFloat x hx)
    rw [Tensor.relativeError, abs_of_infinite (not_isFinite_sub hwide) hnan, hlargest,
      maxNumber_infinity_left (Or.inr ⟨1, represents_one⟩)]
    rfl

end Binary32

/-!
## Tensors
-/

namespace Tensor

open Binary64

variable {s t : Tensor Binary32}

/-- The elements are so related at every place. -/
def Everywhere (s t : Tensor Binary32) (P : Binary32 → Binary32 → Prop) : Prop :=
  ∀ (i : Nat) (x y : Binary32), s.data[i]? = some x → t.data[i]? = some y → P x y

/-- The elements are so related at every place where both are finite. -/
def WhereFinite (s t : Tensor Binary32) (P : Binary32 → Binary32 → Prop) : Prop :=
  ∀ (i : Nat) (x y : Binary32), s.data[i]? = some x → t.data[i]? = some y →
    x.isFinite = true → y.isFinite = true → P x y

/-- The errors of pairs of finite numbers. -/
def finiteErrors (pairs : List (Binary32 × Binary32)) : List Rat :=
  (pairs.filter fun p => p.1.isFinite && p.2.isFinite).map fun p =>
    roundedError p.1.toRat p.2.toRat

theorem forall_finiteErrors {P : Rat → Prop} :
    (∀ e ∈ finiteErrors (s.data.toList.zip t.data.toList), P e) ↔
      s.WhereFinite t fun x y => P (roundedError x.toRat y.toRat) := by
  rw [finiteErrors, List.forall_mem_map]
  constructor
  · intro h i x y hx hy hxfinite hyfinite
    refine h (x, y) (List.mem_filter.mpr ⟨?_, by rw [hxfinite, hyfinite]; rfl⟩)
    rw [List.mem_iff_getElem?]
    refine ⟨i, List.getElem?_zip_eq_some.mpr ⟨?_, ?_⟩⟩
    · rw [Array.getElem?_toList, hx]
    · rw [Array.getElem?_toList, hy]
  · rintro h ⟨x, y⟩ hmem
    rcases List.mem_filter.mp hmem with ⟨hpair, hfinite⟩
    rcases Bool.and_eq_true_iff.mp hfinite with ⟨hx, hy⟩
    rcases List.mem_iff_getElem?.mp hpair with ⟨i, hi⟩
    rcases List.getElem?_zip_eq_some.mp hi with ⟨hxi, hyi⟩
    rw [Array.getElem?_toList] at hxi hyi
    exact h i x y hxi hyi hx hy

theorem foldl_max_le_iff {items : List Rat} {a b : Rat} :
    items.foldl max a ≤ b ↔ a ≤ b ∧ ∀ e ∈ items, e ≤ b := by
  induction items generalizing a with
  | nil =>
      simp
  | cons e rest ih =>
      rw [List.foldl_cons, ih, max_le_iff, List.forall_mem_cons, and_assoc]

/-- One more pair raises the largest error, or is passed over. -/
theorem represents_largest {pairs : List (Binary32 × Binary32)} {f : Float} {r : Rat}
    (hf : Represents f r) :
    Represents
      ((pairs.map fun (x, y) => (x.toFloat, y.toFloat)).foldl
        (fun largest (x, y) => maxNumber largest (relativeError x y)) f)
      ((finiteErrors pairs).foldl max r) := by
  induction pairs generalizing f r with
  | nil =>
      exact hf
  | cons p rest ih =>
      rcases p with ⟨x, y⟩
      rw [List.map_cons, List.foldl_cons]
      by_cases hfinite : x.isFinite = true ∧ y.isFinite = true
      · have herrors : finiteErrors ((x, y) :: rest) =
            roundedError x.toRat y.toRat :: finiteErrors rest := by
          rw [finiteErrors, List.filter_cons, if_pos (Bool.and_eq_true_iff.mpr hfinite)]
          rfl
        rw [herrors, List.foldl_cons]
        exact ih (hf.maxNumber (Binary32.represents_relativeError hfinite.1 hfinite.2))
      · have herrors : finiteErrors ((x, y) :: rest) = finiteErrors rest := by
          rw [finiteErrors, List.filter_cons, if_neg (Bool.and_eq_true_iff.not.mpr hfinite)]
          rfl
        dsimp only
        rw [herrors, hf.maxNumber_of_isNaN (Binary32.isNaN_relativeError hfinite)]
        exact ih hf

/-- The bound of an unremarkable error, as it is rounded. -/
def toleranceValue : Rat :=
  0x10624dd2f1a9fc * 2 ^ (-62 : Int)

theorem represents_denseTolerance : Represents denseTolerance toleranceValue := by
  have hunpack : denseTolerance.toModel.unpack =
      .finite .positive 0x10624dd2f1a9fc (-62) (by decide) := rfl
  exact .normal hunpack ⟨by decide, by decide, by decide, by decide⟩

/-- No infinity or NaN stands against another value. -/
def Compatible (s t : Tensor Binary32) : Prop :=
  s.Everywhere t fun x y => x.isFinite = true ∧ y.isFinite = true ∨ (x == y) = true

/-- An unremarkable error promises compatible elements, and a zero promises equal ones. -/
structure Sound (s t : Tensor Binary32) (f : Float) : Prop where
  unremarkable : ¬ denseTolerance < f → s.Compatible t
  zero : (f == 0) = true → s.Everywhere t fun x y => (x == y) = true

/-- What the largest relative error of two tensors says about their elements. -/
structure Tells (s t : Tensor Binary32) (f : Float) : Prop where
  /-- It is the largest of zero and the errors where both elements are finite. -/
  largest : Represents f ((finiteErrors (s.data.toList.zip t.data.toList)).foldl max 0)
  le_iff : ∀ {bound : Float} {b : Rat}, Represents bound b →
    (f ≤ bound ↔ s.WhereFinite t fun x y => roundedError x.toRat y.toRat ≤ b)
  zero_iff : (f == 0) = true ↔ s.WhereFinite t fun x y => (x == y) = true
  unremarkable_iff : ¬ denseTolerance < f ↔
    s.WhereFinite t fun x y => roundedError x.toRat y.toRat ≤ toleranceValue
  /-- An unremarkable error keeps finite elements near each other. -/
  near : ¬ denseTolerance < f → s.WhereFinite t fun x y =>
    |x.toRat - y.toRat| ≤ (1 / 1000 + 1 / 2 ^ 60) * max (max |x.toRat| |y.toRat|) 1
  /-- Its promises hold if the finite elements alone make them true or give them away. -/
  sound_iff : s.Sound t f ↔
    (s.Compatible t ∨
      ¬ s.WhereFinite t fun x y => roundedError x.toRat y.toRat ≤ toleranceValue) ∧
    ((s.Everywhere t fun x y => (x == y) = true) ∨
      ¬ s.WhereFinite t fun x y => (x == y) = true)
  sound_of_finite : (s.Everywhere t fun x y => x.isFinite = true ∧ y.isFinite = true) →
    s.Sound t f

theorem tells_of_represents {f : Float}
    (hf : Represents f ((finiteErrors (s.data.toList.zip t.data.toList)).foldl max 0)) :
    s.Tells t f := by
  have hle {bound : Float} {b : Rat} (hbound : Represents bound b) :
      f ≤ bound ↔ s.WhereFinite t fun x y => roundedError x.toRat y.toRat ≤ b := by
    rw [hf.le_iff hbound, foldl_max_le_iff]
    exact (and_iff_right hbound.nonneg).trans forall_finiteErrors
  have hunremarkable : ¬ denseTolerance < f ↔
      s.WhereFinite t fun x y => roundedError x.toRat y.toRat ≤ toleranceValue := by
    rw [represents_denseTolerance.lt_iff hf, not_lt, ← hf.le_iff represents_denseTolerance]
    exact hle represents_denseTolerance
  have hzero : (f == 0) = true ↔ s.WhereFinite t fun x y => (x == y) = true := by
    have hle_zero : (f == 0) = true ↔ f ≤ 0 := by
      rw [hf.beq_iff represents_zero, hf.le_iff represents_zero]
      exact ⟨le_of_eq, fun h => le_antisymm h hf.nonneg⟩
    rw [hle_zero, hle represents_zero]
    constructor
    · intro h i x y hx hy hxfinite hyfinite
      rw [Binary32.beq_iff_toRat hxfinite hyfinite, ← roundedError_le_zero_iff]
      exact h i x y hx hy hxfinite hyfinite
    · intro h i x y hx hy hxfinite hyfinite
      rw [roundedError_le_zero_iff, ← Binary32.beq_iff_toRat hxfinite hyfinite]
      exact h i x y hx hy hxfinite hyfinite
  refine ⟨hf, hle, hzero, hunremarkable, ?_, ?_, fun hfinite => ⟨?_, ?_⟩⟩
  · intro hbelow i x y hx hy hxfinite hyfinite
    have herror := hunremarkable.mp hbelow i x y hx hy hxfinite hyfinite
    have hrounding := abs_roundedError_sub_le x.toRat y.toRat
    rw [← div_le_iff₀ (largest_pos _ _)]
    generalize |x.toRat - y.toRat| / max (max |x.toRat| |y.toRat|) 1 = error at hrounding ⊢
    rw [abs_le] at hrounding
    rw [toleranceValue] at herror
    norm_num at herror hrounding ⊢
    linarith
  · rw [← hunremarkable, ← hzero, ← imp_iff_or_not, ← imp_iff_or_not]
    exact ⟨fun h => ⟨h.unremarkable, h.zero⟩, fun h => ⟨h.1, h.2⟩⟩
  · exact fun _ i x y hx hy => Or.inl (hfinite i x y hx hy)
  · intro hnone i x y hx hy
    have hboth := hfinite i x y hx hy
    exact hzero.mp hnone i x y hx hy hboth.1 hboth.2

/-- Tensors of one shape are compared, and others are not. -/
theorem maxRelativeError_tells (h : s.dims = t.dims) :
    ∃ f, s.maxRelativeError t = .ok f ∧ s.Tells t f := by
  rw [maxRelativeError, elementPairs, if_pos h]
  exact ⟨_, rfl, tells_of_represents (represents_largest represents_zero)⟩

theorem of_maxRelativeError {f : Float} (h : s.maxRelativeError t = .ok f) :
    s.dims = t.dims ∧ s.Tells t f := by
  by_cases hdims : s.dims = t.dims
  · rcases maxRelativeError_tells hdims with ⟨f', hf', htells⟩
    rw [hf'] at h
    cases h
    exact ⟨hdims, htells⟩
  · rw [maxRelativeError, elementPairs, if_neg hdims] at h
    cases h

end Tensor
end ConvSweep
