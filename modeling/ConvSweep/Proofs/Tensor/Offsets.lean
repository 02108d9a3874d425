import Mathlib
import ConvSweep.Proofs.Tensor.Cells
import ConvSweep.Proofs.Word.Offset

/-!
# Numbering of coordinates

A shape numbers the coordinates within its extents: their offsets are exactly the
numbers below the element count, in lexicographic order.  The strides of the axes
after the first one are those of a shape of their own, so every fact is proved by
recursion on the extents: the first coordinate counts blocks of the size of the
rest, and the rest of the coordinates is a place in such a block.

The offset of a machine is computed in words, product by product and sum by sum.
`Word.flatIndex` and `Word.coordsOf` check each of these operations, and they agree
with `Shape.flatIndex` and `Shape.coordsOf` on all coordinates and offsets.
-/

namespace ConvSweep

open Loop

variable {α : Type}

/-- One coordinate per extent, each below its extent. -/
def Within (coords dims : List Nat) : Prop :=
  List.Forall₂ (· < ·) coords dims

instance (coords dims : List Nat) : Decidable (Within coords dims) :=
  inferInstanceAs (Decidable (List.Forall₂ (· < ·) coords dims))

/-!
## Places in lexicographic order
-/

theorem placeOf_lt_of_lt {dims coords coords' : List Nat} (h : Within coords dims)
    (h' : Within coords' dims) (hlex : coords < coords') :
    placeOf dims coords < placeOf dims coords' := by
  induction h generalizing coords' with
  | nil =>
      cases h'
      cases hlex
  | @cons c d coords dims hc hcoords ih =>
      cases h' with
      | @cons c' _ coords' _ hc' hcoords' =>
          rw [placeOf, placeOf]
          rcases List.cons_lt_cons_iff.mp hlex with hfirst | ⟨rfl, hrest⟩
          · have hblock := mul_add_le dims.prod hfirst
            have hplace := placeOf_lt hcoords
            omega
          · exact Nat.add_lt_add_left (ih hcoords' hrest) _

theorem placeOf_lt_iff {dims coords coords' : List Nat} (h : Within coords dims)
    (h' : Within coords' dims) : placeOf dims coords < placeOf dims coords' ↔ coords < coords' := by
  constructor
  · intro hplace
    rcases lt_trichotomy coords coords' with hlt | rfl | hgt
    · exact hlt
    · exact absurd hplace (Nat.lt_irrefl _)
    · exact absurd hplace (Nat.lt_asymm (placeOf_lt_of_lt h' h hgt))
  · exact placeOf_lt_of_lt h h'

theorem placeOf_inj {dims coords coords' : List Nat} (h : Within coords dims)
    (h' : Within coords' dims) (heq : placeOf dims coords = placeOf dims coords') :
    coords = coords' := by
  rcases lt_trichotomy coords coords' with hlt | rfl | hgt
  · exact absurd heq (Nat.ne_of_lt (placeOf_lt_of_lt h h' hlt))
  · rfl
  · exact absurd heq (Nat.ne_of_gt (placeOf_lt_of_lt h' h hgt))

theorem prod_pos {dims : List Nat} (h : 0 ∉ dims) : 0 < dims.prod :=
  List.prod_pos fun _ hd => Nat.pos_of_ne_zero (ne_of_mem_of_not_mem hd h)

/-- The last coordinates lie within the extents, and their place is the last one. -/
theorem placeOf_last {dims : List Nat} (h : 0 ∉ dims) :
    Within (dims.map (· - 1)) dims ∧ placeOf dims (dims.map (· - 1)) = dims.prod - 1 := by
  induction dims with
  | nil =>
      exact ⟨.nil, rfl⟩
  | cons d rest ih =>
      rw [List.mem_cons, not_or] at h
      have hpos := prod_pos h.2
      rcases ih h.2 with ⟨hwithin, hplace⟩
      constructor
      · exact .cons (show d - 1 < d by omega) hwithin
      · have hblock : (d - 1) * rest.prod + rest.prod = d * rest.prod := by
          rw [← Nat.succ_mul, Nat.succ_eq_add_one, Nat.sub_add_cancel (by omega)]
        rw [List.map_cons, placeOf, hplace, List.prod_cons]
        omega

/-!
## Quotients by the strides
-/

namespace Shape

theorem quotients_placeOf {dims strides coords : List Nat} {total : Nat}
    (hm : measure? dims = some (strides, total)) (h : Within coords dims) :
    quotients strides (placeOf dims coords) = coords := by
  induction h generalizing strides total with
  | nil =>
      cases hm
      rfl
  | cons hc hcoords ih =>
      rcases measure?_cons hm with ⟨strides', size, hrest, _, rfl, _⟩
      have hplace := placeOf_lt hcoords
      rw [← total_of_measure? hrest] at hplace
      rw [placeOf, ← total_of_measure? hrest, quotients, add_mul_div_of_lt hplace,
        add_mul_mod_of_lt hplace, ih hrest]

theorem length_quotients (strides : List Nat) (offset : Nat) :
    (quotients strides offset).length = strides.length := by
  induction strides generalizing offset with
  | nil =>
      rfl
  | cons s rest ih =>
      rw [quotients, List.length_cons, ih, List.length_cons]

theorem placeOf_quotients {dims strides : List Nat} {total offset : Nat}
    (hm : measure? dims = some (strides, total)) (hpos : 0 ∉ dims) (h : offset < total) :
    Within (quotients strides offset) dims ∧ placeOf dims (quotients strides offset) = offset := by
  induction dims generalizing strides total offset with
  | nil =>
      cases hm
      exact ⟨.nil, (Nat.lt_one_iff.mp h).symm⟩
  | cons d rest ih =>
      rcases measure?_cons hm with ⟨strides', size, hrest, _, rfl, rfl⟩
      rw [List.mem_cons, not_or] at hpos
      rw [Nat.mul_comm] at h
      rcases ih hrest hpos.2 (mod_lt_of_lt_mul h) with ⟨hwithin, hplace⟩
      constructor
      · exact .cons (div_lt_of_lt_mul h) hwithin
      · rw [quotients, placeOf, hplace, ← total_of_measure? hrest, Nat.div_add_mod']

theorem length_strides {dims strides : List Nat} {total : Nat}
    (hm : measure? dims = some (strides, total)) : strides.length = dims.length := by
  induction dims generalizing strides total with
  | nil =>
      cases hm
      rfl
  | cons d rest ih =>
      rcases measure?_cons hm with ⟨strides', size, hrest, _, rfl, _⟩
      rw [List.length_cons, ih hrest, List.length_cons]

/-- Strides can be multiplied with and divided by in words. -/
theorem counts_of_mem_strides {dims strides : List Nat} {total s : Nat}
    (hm : measure? dims = some (strides, total)) (hpos : 0 ∉ dims) (hs : s ∈ strides) :
    Offset.Counts s := by
  induction dims generalizing strides total with
  | nil =>
      cases hm
      cases hs
  | cons d rest ih =>
      rcases measure?_cons hm with ⟨strides', size, hrest, hfits, rfl, _⟩
      rw [List.mem_cons, not_or] at hpos
      rcases List.mem_cons.mp hs with rfl | hs
      · have hle : s ≤ s * d := Nat.le_mul_of_pos_right s (by omega)
        rw [total_of_measure? hrest] at hle hfits ⊢
        exact ⟨prod_pos hpos.2, Nat.lt_of_le_of_lt hle hfits⟩
      · exact ih hrest hpos.2 hs

/-- Past the end the place is the offset still, only the first coordinate leaves its extent. -/
theorem placeOf_coordsOf (shape : Shape) (offset : Nat) :
    placeOf shape.dims (shape.coordsOf offset) = offset ∧
      (Within (shape.coordsOf offset) shape.dims ↔ offset < shape.total) := by
  rcases shape with ⟨dims, strides, total, hnil, hpos, hm⟩
  cases dims with
  | nil =>
      exact absurd rfl hnil
  | cons d rest =>
      rcases measure?_cons hm with ⟨strides', size, hrest, _, rfl, rfl⟩
      rw [List.mem_cons, not_or] at hpos
      have hsize : 0 < size := by
        rw [total_of_measure? hrest]
        exact prod_pos hpos.2
      rcases placeOf_quotients hrest hpos.2 (Nat.mod_lt offset hsize) with ⟨hwithin, hplace⟩
      show placeOf (d :: rest) (offset / size :: quotients strides' (offset % size)) = offset ∧
        (List.Forall₂ (· < ·) (offset / size :: quotients strides' (offset % size)) (d :: rest) ↔
          offset < size * d)
      constructor
      · rw [placeOf, hplace, ← total_of_measure? hrest, Nat.div_add_mod']
      · rw [List.forall₂_cons, Nat.div_lt_iff_lt_mul hsize, Nat.mul_comm d size]
        exact and_iff_left hwithin

theorem length_coordsOf (shape : Shape) (offset : Nat) :
    (shape.coordsOf offset).length = shape.dims.length := by
  rw [coordsOf, length_quotients, length_strides shape.measured]

theorem coordsOf_placeOf (shape : Shape) {coords : List Nat} (h : Within coords shape.dims) :
    shape.coordsOf (placeOf shape.dims coords) = coords :=
  quotients_placeOf shape.measured h

theorem flatIndex_coordsOf (shape : Shape) {offset : Nat} (h : offset < Size.limit) :
    shape.flatIndex (shape.coordsOf offset) = .ok offset := by
  rw [flatIndex_of_length (shape.length_coordsOf offset), (shape.placeOf_coordsOf offset).1]
  exact Size.checked_of_lt h

end Shape

/-!
## Offsets in words
-/

namespace Word

/-- The sum of products, from the first term to the last. -/
def addProducts : List Nat → List Nat → Nat → Except Fault Nat
  | c :: coords, s :: strides, sum => do
      let next ← (sum + c * s : Offset).eval
      addProducts coords strides next
  | _, _, sum => .ok sum

def flatIndex (shape : Shape) (coords : List Nat) : Except Fault Nat := do
  Fault.coordinateCount.check (coords.length = shape.rank)
  addProducts coords shape.strides 0

def quotients : List Nat → Nat → Except Fault (List Nat)
  | [], _ => .ok []
  | s :: rest, offset => do
      let (c, offset) ← divide offset s
      let coords ← quotients rest offset
      return c :: coords

def coordsOf (shape : Shape) (offset : Nat) : Except Fault (List Nat) :=
  quotients shape.strides offset

/-- A product with a coordinate that leaves the word leaves it too. -/
theorem eval_term {c s : Nat} (hs : Offset.Counts s) :
    (c * s : Offset).eval = Size.checked (c * s) := by
  by_cases hc : Size.Fits c
  · exact Offset.eval_product (Offset.eval_size hc) (Offset.eval_size hs.2)
  · have hproduct : ¬ Size.Fits (c * s) := fun h =>
      hc (Nat.lt_of_le_of_lt (Nat.le_mul_of_pos_right c hs.1) h)
    show (Offset.mul (.size c) (.size s)).eval = _
    rw [Offset.eval, Offset.eval, Size.checked_of_not_fits hc, Size.checked_of_not_fits hproduct]
    rfl

theorem addProducts_eq (coords : List Nat) {strides : List Nat} {sum : Nat}
    (hs : ∀ s ∈ strides, Offset.Counts s) (hsum : sum < Size.limit) :
    addProducts coords strides sum =
      Size.checked (sum + (List.zipWith (· * ·) coords strides).foldr (· + ·) 0) := by
  induction coords generalizing strides sum with
  | nil =>
      exact (Size.checked_of_lt hsum).symm
  | cons c coords ih =>
      cases strides with
      | nil =>
          exact (Size.checked_of_lt hsum).symm
      | cons s strides =>
          have hstep : (sum + c * s : Offset).eval = Size.checked (sum + c * s) :=
            Offset.eval_sum rfl (eval_term (hs s List.mem_cons_self))
          rw [addProducts, hstep, List.zipWith_cons_cons, List.foldr_cons, ← Nat.add_assoc]
          by_cases hnext : Size.Fits (sum + c * s)
          · rw [Size.checked_bind hnext]
            exact ih (fun s' hs' => hs s' (List.mem_cons_of_mem s hs')) hnext
          · rw [Size.checked_of_not_fits hnext, Size.checked_of_not_fits]
            · rfl
            · exact fun h => hnext (Nat.lt_of_le_of_lt (Nat.le_add_right _ _) h)

theorem flatIndex_eq (shape : Shape) (coords : List Nat) :
    flatIndex shape coords = shape.flatIndex coords := by
  have hsum := addProducts_eq coords
    (fun s hs => Shape.counts_of_mem_strides shape.measured shape.dims_ne_zero hs)
    (show 0 < Size.limit by decide)
  rw [flatIndex, Shape.flatIndex, hsum, Nat.zero_add]

theorem quotients_eq {strides : List Nat} (hs : ∀ s ∈ strides, Offset.Counts s) (offset : Nat) :
    quotients strides offset = .ok (Shape.quotients strides offset) := by
  induction strides generalizing offset with
  | nil =>
      rfl
  | cons s rest ih =>
      have hrest := ih (fun s' hs' => hs s' (List.mem_cons_of_mem s hs')) (offset % s)
      rw [quotients, divide_ok (hs s List.mem_cons_self).1, ok_bind]
      show (quotients rest (offset % s) >>= fun coords => .ok (offset / s :: coords)) = _
      rw [hrest]
      rfl

theorem coordsOf_eq (shape : Shape) (offset : Nat) :
    coordsOf shape offset = .ok (shape.coordsOf offset) :=
  quotients_eq (fun _ hs => Shape.counts_of_mem_strides shape.measured shape.dims_ne_zero hs) offset

end Word

/-!
## The numbering
-/

/-- The offsets of a shape number the coordinates within its extents in lexicographic order, and
every step of their computation stays in the word. -/
structure Shape.Numbers (shape : Shape) : Prop where
  bijective : Set.BijOn shape.flatIndex {coords | Within coords shape.dims}
    (Except.ok '' Set.Iio shape.total)
  increasing : ∀ coords coords' i i', Within coords shape.dims → Within coords' shape.dims →
    shape.flatIndex coords = .ok i → shape.flatIndex coords' = .ok i' →
      (coords < coords' ↔ i < i')
  last : Within (shape.dims.map (· - 1)) shape.dims ∧
    shape.flatIndex (shape.dims.map (· - 1)) = .ok (shape.total - 1)
  coordsOf_flatIndex : ∀ coords i, Within coords shape.dims →
    shape.flatIndex coords = .ok i → shape.coordsOf i = coords
  flatIndex_coordsOf : ∀ offset < Size.limit,
    shape.flatIndex (shape.coordsOf offset) = .ok offset
  within_coordsOf : ∀ offset, Within (shape.coordsOf offset) shape.dims ↔ offset < shape.total
  flatIndex_word : ∀ coords, Word.flatIndex shape coords = shape.flatIndex coords
  coordsOf_word : ∀ offset, Word.coordsOf shape offset = .ok (shape.coordsOf offset)

theorem Shape.numbers (shape : Shape) : shape.Numbers where
  bijective := by
    refine ⟨?_, ?_, ?_⟩
    · intro coords hcoords
      rcases flatIndex_of_lt hcoords with ⟨hindex, hlt⟩
      exact ⟨placeOf shape.dims coords, hlt, hindex.symm⟩
    · intro coords hcoords coords' hcoords' heq
      rw [(flatIndex_of_lt hcoords).1, (flatIndex_of_lt hcoords').1] at heq
      exact placeOf_inj hcoords hcoords' (Except.ok.inj heq)
    · rintro _ ⟨offset, hoffset, rfl⟩
      have hlt : offset < Size.limit := Nat.lt_trans hoffset shape.total_lt_limit
      exact ⟨shape.coordsOf offset, (shape.placeOf_coordsOf offset).2.mpr hoffset,
        shape.flatIndex_coordsOf hlt⟩
  increasing coords coords' i i' hcoords hcoords' hi hi' := by
    rw [(flatIndex_of_lt hcoords).1] at hi
    rw [(flatIndex_of_lt hcoords').1] at hi'
    cases hi
    cases hi'
    exact (placeOf_lt_iff hcoords hcoords').symm
  last := by
    rcases placeOf_last shape.dims_ne_zero with ⟨hwithin, hplace⟩
    refine ⟨hwithin, ?_⟩
    rw [(flatIndex_of_lt hwithin).1, hplace, total_eq_prod]
  coordsOf_flatIndex coords i hcoords hi := by
    rw [(flatIndex_of_lt hcoords).1] at hi
    cases hi
    exact shape.coordsOf_placeOf hcoords
  flatIndex_coordsOf _ hoffset := shape.flatIndex_coordsOf hoffset
  within_coordsOf offset := (shape.placeOf_coordsOf offset).2
  flatIndex_word := Word.flatIndex_eq shape
  coordsOf_word := Word.coordsOf_eq shape

namespace Tensor

theorem get_of_within {t : Tensor α} {coords : List Nat} (h : Within coords t.dims) :
    t.get coords = fetch t.data (placeOf t.dims coords) ∧ placeOf t.dims coords < t.data.size := by
  rcases Shape.flatIndex_of_lt h with ⟨hindex, hlt⟩
  constructor
  · rw [get, hindex]
    rfl
  · rw [t.size_eq]
    exact hlt

theorem set_of_within {t : Tensor α} {coords : List Nat} (h : Within coords t.dims) (x : α) :
    ∃ u, t.set coords x = .ok u ∧ u.shape = t.shape ∧
      u.data = t.data.setIfInBounds (placeOf t.dims coords) x := by
  rcases Shape.flatIndex_of_lt h with ⟨hindex, hlt⟩
  have hlt' : placeOf t.dims coords < t.data.size := by
    rw [t.size_eq]
    exact hlt
  refine ⟨ofVector t.shape (t.toVector.set (placeOf t.shape.dims coords) x hlt), ?_, rfl, ?_⟩
  · rw [set, hindex, ok_bind, update, BufferM.run, BufferM.write, dif_pos hlt]
    rfl
  · rw [Array.setIfInBounds, dif_pos hlt']
    rfl

/-- Writing one element is seen where it is written and nowhere else. -/
def Separates (t : Tensor α) : Prop :=
  ∀ coords x, Within coords t.dims →
    ∃ u, t.set coords x = .ok u ∧ u.shape = t.shape ∧ u.get coords = .ok x ∧
      ∀ coords', Within coords' t.dims → coords' ≠ coords →
        ∃ y, t.get coords' = .ok y ∧ u.get coords' = .ok y

theorem separates (t : Tensor α) : t.Separates := by
  intro coords x hcoords
  rcases set_of_within hcoords x with ⟨u, hu, hshape, hdata⟩
  have hdims : u.dims = t.dims := congrArg Shape.dims hshape
  have hget : ∀ coords', Within coords' t.dims → u.get coords' =
      fetch (t.data.setIfInBounds (placeOf t.dims coords) x) (placeOf t.dims coords') := by
    intro coords' hcoords'
    rw [(get_of_within (hdims ▸ hcoords')).1, hdims, hdata]
  refine ⟨u, hu, hshape, ?_, ?_⟩
  · rw [hget coords hcoords, fetch,
      Array.getElem?_setIfInBounds_self_of_lt (get_of_within hcoords).2]
    rfl
  · intro coords' hcoords' hne
    have hplace : placeOf t.dims coords ≠ placeOf t.dims coords' := fun heq =>
      hne (placeOf_inj hcoords hcoords' heq).symm
    rcases get_of_within hcoords' with ⟨hold, hlt⟩
    refine ⟨t.data.getD (placeOf t.dims coords') x, ?_, ?_⟩
    · rw [hold, fetch_ok hlt x]
    · rw [hget coords' hcoords', fetch, Array.getElem?_setIfInBounds_ne hplace]
      exact fetch_ok hlt x

end Tensor

/-- An accepted shape numbers its coordinates, so the elements of tensors do not overlap. -/
theorem Shape.numbers_of_ofDims {dims : List Nat} {shape : Shape}
    (h : ofDims dims = .ok shape) :
    shape.dims = dims ∧ shape.Numbers ∧ ∀ {β : Type} (t : Tensor β), t.Separates :=
  ⟨dims_ofDims h, shape.numbers, Tensor.separates⟩

/-- The largest element count of a word: the offset after the last one still has coordinates. -/
theorem Shape.numbers_whole_word :
    ∃ shape, ofDims [3, 5, 0x1111111111111111] = .ok shape ∧ shape.Numbers ∧
      shape.flatIndex [2, 4, 0x1111111111111110] = .ok (Size.limit - 2) ∧
      shape.coordsOf (Size.limit - 1) = [3, 0, 0] ∧
      shape.flatIndex [3, 0, 0] = .ok (Size.limit - 1) := by
  have hprod : [3, 5, 0x1111111111111111].prod < Size.limit := by
    decide
  rcases ofDims_of_prod (by decide) (by decide) hprod with ⟨shape, hshape, _⟩
  rcases numbers_of_ofDims hshape with ⟨hdims, hnumbers, _⟩
  have hmeasured := shape.measured
  rw [hdims] at hmeasured
  have hcounts : measure? [3, 5, 0x1111111111111111] =
      some ([0x5555555555555555, 0x1111111111111111, 1], Size.limit - 1) := by
    decide
  rcases Prod.mk.inj (Option.some.inj (hmeasured.symm.trans hcounts)) with ⟨hstrides, htotal⟩
  have hpast : shape.coordsOf (Size.limit - 1) = [3, 0, 0] := by
    rw [coordsOf, hstrides]
    decide
  have hlast := hnumbers.last.2
  rw [hdims, htotal] at hlast
  have hafter := hnumbers.flatIndex_coordsOf (Size.limit - 1) (by decide)
  rw [hpast] at hafter
  exact ⟨shape, hshape, hnumbers, hlast, hpast, hafter⟩

end ConvSweep
