import Mathlib
import ConvSweep.Binary32
import ConvSweep.Proofs.Tensor.Layout

/-!
# Conversions undo and match each other

The conversions between the axis orders are inverse to each other, and the two
ways to a bordered tensor in NHWC order, in one pass or through a bordered NCHW
tensor, end in the same tensor or both in none.
-/

namespace ConvSweep
namespace Tensor

variable {α : Type} [Zero α]

/-- `u` holds the elements of the NCHW tensor `t` with the channels in the last place. -/
structure ChannelsLast (t u : Tensor α) (n c h w : Nat) : Prop where
  dims : u.dims = [n, h, w, c]
  element : ∀ a < n, ∀ b < c, ∀ y < h, ∀ z < w,
    ∃ x, t.get [a, b, y, z] = .ok x ∧ u.get [a, y, z, b] = .ok x

/-- `u` is the NCHW tensor `t` with a zero border of width `pad` around each plane. -/
structure WithBorder (pad : Nat) (t u : Tensor α) (n c h w : Nat) : Prop where
  dims : u.dims = [n, c, h + 2 * pad, w + 2 * pad]
  inner : ∀ a < n, ∀ b < c, ∀ y < h, ∀ z < w,
    ∃ x, t.get [a, b, y, z] = .ok x ∧ u.get [a, b, y + pad, z + pad] = .ok x
  outer : ∀ a < n, ∀ b < c, ∀ y < h + 2 * pad, ∀ z < w + 2 * pad,
    y < pad ∨ pad + h ≤ y ∨ z < pad ∨ pad + w ≤ z → u.get [a, b, y, z] = .ok 0

section

variable {t : Tensor α} {n c h w : Nat} (hdims : t.dims = [n, c, h, w])
include hdims

/-!
## Axis orders
-/

theorem exists_toNhwc (hsize : t.data.size < Size.bufferLimit) :
    ∃ u, t.toNhwc = .ok u ∧ u.dims = [n, h, w, c] ∧
      Holds u.data n h w c fun a y z b => t.cell a b y z := by
  have hprod : n * (h + 2 * 0) * (w + 2 * 0) * c < Size.bufferLimit := by
    have hcomm : n * (h + 2 * 0) * (w + 2 * 0) * c = n * c * h * w := by ring
    rw [hcomm, ← size_quad hdims]
    exact hsize
  rcases toNhwcPadded_ok hdims (holds_cell hdims) hprod with ⟨u, hu, hdims', hholds⟩
  refine ⟨u, hu, hdims', hholds.congr ?_⟩
  intro a _ y hy z hz b _
  exact bordering_zero hy hz

theorem channelsLast_of_toNhwc {u : Tensor α} (hu : t.toNhwc = .ok u) :
    ChannelsLast t u n c h w := by
  rcases of_toNhwcPadded hdims (holds_cell hdims) hu with ⟨hdims', hholds⟩
  constructor
  · exact hdims'
  · intro a ha b hb y hy z hz
    refine ⟨t.cell a b y z, get_of_holds hdims (holds_cell hdims) ha hb hy hz, ?_⟩
    rw [get_of_holds hdims' hholds ha hy hz hb, bordering_zero hy hz]

theorem toNhwc_toNchw (hsize : t.data.size < Size.bufferLimit) :
    (t.toNhwc >>= toNchw) = .ok t := by
  rcases exists_toNhwc hdims hsize with ⟨u, hu, hdims', hholds⟩
  have hcomm : n * h * w * c = n * c * h * w := by ring
  rw [size_quad hdims, ← hcomm] at hsize
  rcases toNchw_ok hdims' hholds hsize with ⟨s, hs, hdims'', hholds'⟩
  rw [hu, ok_bind, hs, eq_of_holds hdims'' hdims hholds' (holds_cell hdims)]

theorem toNchw_toNhwc (hsize : t.data.size < Size.bufferLimit) :
    (t.toNchw >>= toNhwc) = .ok t := by
  rw [size_quad hdims] at hsize
  rcases toNchw_ok hdims (holds_cell hdims) hsize with ⟨u, hu, hdims', hholds⟩
  have husize : u.data.size < Size.bufferLimit := by
    have hcomm : n * w * c * h = n * c * h * w := by ring
    rw [size_quad hdims', hcomm]
    exact hsize
  rcases exists_toNhwc hdims' husize with ⟨s, hs, hdims'', hholds'⟩
  have hcells : Holds s.data n c h w t.cell := by
    apply hholds'.congr
    intro a ha y hy z hz b hb
    rw [cell, get_of_holds hdims' hholds ha hb hy hz]
  rw [hu, ok_bind, hs, eq_of_holds hdims'' hdims hcells (holds_cell hdims)]

/-!
## Borders
-/

/-- A border can be added exactly if the bordered tensor can be allocated. -/
theorem padNchw_isOk_iff (hsize : t.data.size < Size.bufferLimit) (pad : Nat) :
    (∃ u, t.padNchw pad = .ok u) ↔ n * c * (h + 2 * pad) * (w + 2 * pad) < Size.bufferLimit := by
  by_cases hpad : pad = 0
  · rw [size_quad hdims] at hsize
    subst hpad
    exact ⟨fun _ => hsize, fun _ => ⟨t, if_pos rfl⟩⟩
  · constructor
    · rintro ⟨u, hu⟩
      exact prod_lt_of_padNchw hpad hdims hu
    · intro hprod
      rcases padNchw_ok hpad hdims (holds_cell hdims) hprod with ⟨u, hu, _⟩
      exact ⟨u, hu⟩

theorem withBorder_of_padNchw {u : Tensor α} {pad : Nat} (hu : t.padNchw pad = .ok u) :
    WithBorder pad t u n c h w := by
  rcases of_padNchw hdims (holds_cell hdims) hu with ⟨hdims', hholds⟩
  constructor
  · exact hdims'
  · intro a ha b hb y hy z hz
    refine ⟨t.cell a b y z, get_of_holds hdims (holds_cell hdims) ha hb hy hz, ?_⟩
    rw [get_of_holds hdims' hholds ha hb (by omega) (by omega), bordering_of_mem hy hz]
  · intro a ha b hb y hy z hz hout
    rw [get_of_holds hdims' hholds ha hb hy hz, bordering_eq_zero]
    rintro y' hy' z' hz' ⟨rfl, rfl⟩
    omega

/-- Both ways to a bordered NHWC tensor that can be allocated end in it. -/
theorem exists_toNhwcPadded {pad : Nat} (hpad : pad ≠ 0)
    (hprod : n * c * (h + 2 * pad) * (w + 2 * pad) < Size.bufferLimit) :
    ∃ u, t.toNhwcPadded pad = .ok u ∧ (t.padNchw pad >>= toNhwc) = .ok u := by
  have hcells := holds_cell hdims
  have hcomm : n * (h + 2 * pad) * (w + 2 * pad) * c =
      n * c * (h + 2 * pad) * (w + 2 * pad) := by ring
  rcases toNhwcPadded_ok hdims hcells (by rw [hcomm]; exact hprod) with ⟨u, hu, hudims, hux⟩
  rcases padNchw_ok hpad hdims hcells hprod with ⟨r, hr, hrdims, hrx⟩
  have hrsize : r.data.size < Size.bufferLimit := by
    rw [size_quad hrdims]
    exact hprod
  rcases exists_toNhwc hrdims hrsize with ⟨s, hs, hsdims, hsx⟩
  refine ⟨u, hu, ?_⟩
  rw [hr, ok_bind, hs, eq_of_holds hsdims hudims (hsx.congr ?_) hux]
  intro a ha y hy z hz b hb
  rw [cell, get_of_holds hrdims hrx ha hb hy hz]

theorem toNhwcPadded_quad {pad : Nat} (hpad : pad ≠ 0) (u : Tensor α) :
    t.toNhwcPadded pad = .ok u ↔ (t.padNchw pad >>= toNhwc) = .ok u := by
  constructor
  · intro hu
    have hprod := prod_lt_of_toNhwcPadded hdims hu
    have hcomm : n * (h + 2 * pad) * (w + 2 * pad) * c =
        n * c * (h + 2 * pad) * (w + 2 * pad) := by ring
    rw [hcomm] at hprod
    rcases exists_toNhwcPadded hdims hpad hprod with ⟨s, hs, hcomposed⟩
    rw [hcomposed, ← hs, hu]
  · intro hu
    rcases bind_eq_ok hu with ⟨r, hr, _⟩
    rcases exists_toNhwcPadded hdims hpad (prod_lt_of_padNchw hpad hdims hr) with
      ⟨s, hs, hcomposed⟩
    rw [hs, ← hcomposed, hu]

end

/-!
## Other ranks
-/

/-- What the conversions answer to a tensor whose rank is not four. -/
structure Rejected (t : Tensor α) : Prop where
  toNhwc : t.toNhwc = .error (.error (.rankMismatch t.shape.rank 4))
  toNchw : t.toNchw = .error (.error (.rankMismatch t.shape.rank 4))
  toNhwcPadded : ∀ pad, t.toNhwcPadded pad = .error (.error (.rankMismatch t.shape.rank 4))
  padNchw : ∀ pad, 0 < pad → t.padNchw pad = .error (.error (.rankMismatch t.shape.rank 4))

theorem rejected_of_rank {t : Tensor α} (h : t.shape.rank ≠ 4) : t.Rejected := by
  have hquad := Shape.quad_of_rank h
  have hpadded (pad : Nat) :
      t.toNhwcPadded pad = .error (.error (.rankMismatch t.shape.rank 4)) := by
    rw [Tensor.toNhwcPadded, hquad]
    rfl
  constructor
  · exact hpadded 0
  · rw [Tensor.toNchw, hquad]
    rfl
  · exact hpadded
  · intro pad hpad
    rw [Tensor.padNchw, if_neg (Nat.ne_of_gt hpad), hquad]
    rfl

theorem padNchw_zero (t : Tensor α) : t.padNchw 0 = .ok t :=
  if_pos rfl

/-- In one pass or in two, the same tensor or none. -/
theorem toNhwcPadded_eq_ok_iff (t : Tensor α) (pad : Nat) (u : Tensor α) :
    t.toNhwcPadded pad = .ok u ↔ (t.padNchw pad >>= toNhwc) = .ok u := by
  by_cases hpad : pad = 0
  · rw [hpad, padNchw_zero, ok_bind, toNhwc]
  by_cases hrank : t.shape.rank = 4
  · rcases List.length_eq_four.mp hrank with ⟨n, c, h, w, hdims⟩
    exact toNhwcPadded_quad hdims hpad u
  · have hrejected := rejected_of_rank hrank
    rw [hrejected.toNhwcPadded pad, hrejected.padNchw pad (Nat.pos_of_ne_zero hpad)]
    exact ⟨nofun, nofun⟩

/-!
## All conversions
-/

/-- What the conversions make of an NCHW tensor. -/
structure Converted (t : Tensor α) (n c h w : Nat) : Prop where
  channelsLast : ∃ u, t.toNhwc = .ok u ∧ ChannelsLast t u n c h w
  thereAndBack : (t.toNhwc >>= toNchw) = .ok t
  backAndThere : (t.toNchw >>= toNhwc) = .ok t
  padNchw_isOk : ∀ pad,
    (∃ u, t.padNchw pad = .ok u) ↔ n * c * (h + 2 * pad) * (w + 2 * pad) < Size.bufferLimit
  withBorder : ∀ pad u, t.padNchw pad = .ok u → WithBorder pad t u n c h w

/-- The conversions of a tensor that is held in memory. -/
theorem conversions_match (t : Tensor α) (hsize : t.data.size < Size.bufferLimit) :
    (∀ n c h w, t.dims = [n, c, h, w] → Converted t n c h w) ∧
      (∀ pad u, t.toNhwcPadded pad = .ok u ↔ (t.padNchw pad >>= toNhwc) = .ok u) ∧
      (t.shape.rank ≠ 4 → t.Rejected) ∧ t.padNchw 0 = .ok t := by
  refine ⟨?_, toNhwcPadded_eq_ok_iff t, rejected_of_rank, padNchw_zero t⟩
  intro n c h w hdims
  constructor
  · rcases exists_toNhwc hdims hsize with ⟨u, hu, _⟩
    exact ⟨u, hu, channelsLast_of_toNhwc hdims hu⟩
  · exact toNhwc_toNchw hdims hsize
  · exact toNchw_toNhwc hdims hsize
  · exact padNchw_isOk_iff hdims hsize
  · intro pad u hu
    exact withBorder_of_padNchw hdims hu

/-- Two channels of two elements, among them a negative zero and a NaN with a payload. -/
def signedPlanes : Tensor Binary32 where
  shape := ⟨[1, 2, 1, 2], [4, 2, 2, 1], 4, by decide, by decide, by decide⟩
  data := #[⟨0x80000000⟩, ⟨0x3f800000⟩, ⟨0x7fc00001⟩, 0]
  size_eq := rfl

theorem conversions_match_signed :
    signedPlanes.data.size < Size.bufferLimit ∧
      (signedPlanes.toNhwc >>= toNchw) = .ok signedPlanes ∧
      ∃ u, signedPlanes.padNchw 1 = .ok u ∧ u.get [0, 0, 1, 1] = .ok ⟨0x80000000⟩ ∧
        u.get [0, 1, 1, 1] = .ok ⟨0x7fc00001⟩ ∧ u.get [0, 0, 0, 1] = .ok 0 := by
  have hsize : signedPlanes.data.size < Size.bufferLimit := by
    decide
  have h := (conversions_match signedPlanes hsize).1 1 2 1 2 rfl
  rcases (h.padNchw_isOk 1).mpr (by decide) with ⟨u, hu⟩
  have hborder := h.withBorder 1 u hu
  rcases hborder.inner 0 (by decide) 0 (by decide) 0 (by decide) 0 (by decide) with ⟨x, hx, hux⟩
  rcases hborder.inner 0 (by decide) 1 (by decide) 0 (by decide) 0 (by decide) with ⟨y, hy, huy⟩
  cases hx
  cases hy
  exact ⟨hsize, h.thereAndBack, u, hu, hux, huy,
    hborder.outer 0 (by decide) 0 (by decide) 0 (by decide) 1 (by decide) (by decide)⟩

end Tensor
end ConvSweep
