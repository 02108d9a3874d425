import Mathlib
import ConvSweep.Proofs.Sweep.Sources
import ConvSweep.Proofs.Tensor.Offsets

/-!
# Extents and their products

A shape takes the products of its extents from the right, one stride after the
other; the weights of a filter are counted from the left.  Each way stops at the
first product that leaves the word.  The products from the right are those of the
lists `dims.drop n` and the products from the left those of the lists `dims.take n`.
When no extent is zero, all of them divide the whole product, so both ways stop for
the same extents: those whose whole product leaves the word.

`Word.ofDims` is the construction of a shape as a machine runs it.  It fills a
vector of ones with the strides, and every index, difference and product is checked.
-/

namespace ConvSweep

variable {dims : List Nat}

/-- For each axis, the product of the extents after it. -/
def laterProducts (dims : List Nat) : List Nat :=
  (List.range dims.length).map fun axis => (dims.drop (axis + 1)).prod

theorem length_laterProducts (dims : List Nat) : (laterProducts dims).length = dims.length := by
  rw [laterProducts, List.length_map, List.length_range]

theorem getElem?_laterProducts {axis : Nat} (h : axis < dims.length) :
    (laterProducts dims)[axis]? = some (dims.drop (axis + 1)).prod := by
  rw [laterProducts, List.getElem?_map, List.getElem?_range h, Option.map_some]

theorem laterProducts_cons (d : Nat) (rest : List Nat) :
    laterProducts (d :: rest) = rest.prod :: laterProducts rest := by
  rw [laterProducts, List.length_cons, List.range_succ_eq_map, List.map_cons, List.map_map]
  rfl

/-- A product is that of the next one times the extent between them. -/
theorem prod_drop {axis : Nat} (h : axis < dims.length) :
    (dims.drop axis).prod = (dims.drop (axis + 1)).prod * dims[axis] := by
  rw [List.drop_eq_getElem_cons h, List.prod_cons, Nat.mul_comm]

theorem prod_drop_le (hpos : 0 ∉ dims) (n : Nat) : (dims.drop n).prod ≤ dims.prod :=
  Nat.le_of_dvd (prod_pos hpos) (List.drop_sublist n dims).prod_dvd_prod

theorem prod_take_le (hpos : 0 ∉ dims) (n : Nat) : (dims.take n).prod ≤ dims.prod :=
  Nat.le_of_dvd (prod_pos hpos) (List.take_sublist n dims).prod_dvd_prod

/-!
## From the right
-/

namespace Shape

/-- Strides are products, whatever the extents. -/
theorem strides_of_measure? {strides : List Nat} {total : Nat}
    (hm : measure? dims = some (strides, total)) : strides = laterProducts dims := by
  induction dims generalizing strides total with
  | nil =>
      cases hm
      rfl
  | cons d rest ih =>
      rcases measure?_cons hm with ⟨strides', size, hrest, _, rfl, _⟩
      rw [laterProducts_cons, ih hrest, total_of_measure? hrest]

/-- Extents have no strides if one of the lists they end with has too large a product. -/
theorem measure?_eq_none_iff : measure? dims = none ↔ ∃ n, Size.limit ≤ (dims.drop n).prod := by
  induction dims with
  | nil =>
      have hone : ¬ Size.limit ≤ 1 := by decide
      simp [measure?, hone]
  | cons d rest ih =>
      have hdrops : (∃ n, Size.limit ≤ ((d :: rest).drop n).prod) ↔
          Size.limit ≤ rest.prod * d ∨ ∃ n, Size.limit ≤ (rest.drop n).prod := by
        constructor
        · rintro ⟨n, hn⟩
          cases n with
          | zero =>
              rw [List.drop_zero, List.prod_cons, Nat.mul_comm] at hn
              exact .inl hn
          | succ n =>
              exact .inr ⟨n, hn⟩
        · rintro (hwhole | ⟨n, hn⟩)
          · refine ⟨0, ?_⟩
            rw [List.drop_zero, List.prod_cons, Nat.mul_comm]
            exact hwhole
          · exact ⟨n + 1, hn⟩
      rw [hdrops, ← ih, measure?]
      cases hrest : measure? rest with
      | none =>
          simp
      | some found =>
          rcases found with ⟨strides, size⟩
          rw [← total_of_measure? hrest]
          by_cases hfits : Size.Fits (size * d)
          · have hsmall : ¬ Size.limit ≤ size * d := Nat.not_le.mpr hfits
            simp [Size.mul?, hfits, hsmall]
          · have hlarge : Size.limit ≤ size * d := Nat.le_of_not_lt hfits
            simp [Size.mul?, hfits, hlarge]

theorem measure?_eq_none_iff_of_pos (hpos : 0 ∉ dims) :
    measure? dims = none ↔ Size.limit ≤ dims.prod := by
  rw [measure?_eq_none_iff]
  constructor
  · rintro ⟨n, hn⟩
    exact Nat.le_trans hn (prod_drop_le hpos n)
  · intro h
    exact ⟨0, h⟩

end Shape

/-!
## From the left
-/

namespace Size

theorem product?_eq_none_iff_of_pos (hpos : 0 ∉ dims) :
    product? dims = none ↔ limit ≤ dims.prod := by
  rw [product?_eq_none_iff]
  constructor
  · rintro ⟨n, hn⟩
    exact Nat.le_trans hn (prod_take_le hpos n)
  · intro h
    refine ⟨dims.length, ?_⟩
    rw [List.take_length]
    exact h

theorem product?_of_prod (hpos : 0 ∉ dims) (hprod : dims.prod < limit) :
    product? dims = some dims.prod := by
  cases hproduct : product? dims with
  | none =>
      exact absurd ((product?_eq_none_iff_of_pos hpos).mp hproduct) (Nat.not_le.mpr hprod)
  | some n =>
      rw [of_product hproduct]

end Size

/-!
## Accepted extents
-/

namespace Shape

/-- Some extents, all of them positive, with a product that fits the word. -/
def Countable (dims : List Nat) : Prop :=
  dims ≠ [] ∧ 0 ∉ dims ∧ dims.prod < Size.limit

instance (dims : List Nat) : Decidable (Countable dims) :=
  inferInstanceAs (Decidable (_ ∧ _ ∧ _))

theorem countable_dims (shape : Shape) : Countable shape.dims := by
  refine ⟨shape.dims_ne_nil, shape.dims_ne_zero, ?_⟩
  rw [← total_eq_prod]
  exact shape.total_lt_limit

theorem exists_ofDims_iff : (∃ shape, ofDims dims = .ok shape) ↔ Countable dims := by
  constructor
  · rintro ⟨shape, hshape⟩
    rw [← dims_ofDims hshape]
    exact shape.countable_dims
  · rintro ⟨hnil, hpos, hprod⟩
    rcases ofDims_of_prod hnil hpos hprod with ⟨shape, hshape, _⟩
    exact ⟨shape, hshape⟩

/-- The only rejection carries the extents. -/
theorem ofDims_of_not_countable (h : ¬ Countable dims) :
    ofDims dims = .error (.invalidShape dims) := by
  rw [← exists_ofDims_iff] at h
  rw [ofDims] at h ⊢
  cases hshape : ofDims? dims with
  | none =>
      rfl
  | some shape =>
      rw [hshape] at h
      exact absurd ⟨shape, rfl⟩ h

theorem strides_eq (shape : Shape) : shape.strides = laterProducts shape.dims :=
  strides_of_measure? shape.measured

end Shape

/-!
## Strides in words
-/

namespace Word

/-- The product of two sizes, or the rejection of the extents they come from. -/
def extentProduct (dims : List Nat) (a b : Nat) : Except Error Nat :=
  match Size.mul? a b with
  | some n => .ok n
  | none => .error (.invalidShape dims)

/-- Stores at `axis` the stride after it times the extent after it. -/
def storeStride (dims : List Nat) {n : Nat} (axis : Nat) (strides : Vector Nat n) :
    Outcome (Vector Nat n) := do
  let stride ← fetchAt strides.toArray (axis + 1)
  let extent ← fetchAt dims.toArray (axis + 1)
  let size ← extentProduct dims stride extent
  BufferM.run (BufferM.write axis size) strides

/-- The axes below a number, from the last of them to the first. -/
def storeStrides (dims : List Nat) {n : Nat} : Nat → Vector Nat n → Outcome (Vector Nat n)
  | 0, strides => return strides
  | axis + 1, strides => do
      let strides ← storeStride dims axis strides
      storeStrides dims axis strides

/-- The strides and the element count of a shape. -/
def ofDims (dims : List Nat) : Outcome (List Nat × Nat) := do
  if dims = [] ∨ 0 ∈ dims then
    throw (.error (.invalidShape dims))
  let last ← (dims.length - 1 : Offset).eval
  let strides ← storeStrides dims last (Vector.replicate dims.length 1)
  let stride ← fetchAt strides.toArray 0
  let extent ← fetchAt dims.toArray 0
  let total ← extentProduct dims stride extent
  return (strides.toList, total)

theorem extentProduct_of_lt {a b : Nat} (h : a * b < Size.limit) :
    extentProduct dims a b = .ok (a * b) := by
  rw [extentProduct, Size.mul?, if_pos (show Size.Fits (a * b) from h)]

theorem extentProduct_of_le {a b : Nat} (h : Size.limit ≤ a * b) :
    extentProduct dims a b = .error (.invalidShape dims) := by
  rw [extentProduct, Size.mul?, if_neg (show ¬ Size.Fits (a * b) from Nat.not_lt.mpr h)]

variable {strides : Vector Nat dims.length} {axis : Nat}

/-- From `axis` on, the strides are those of the extents. -/
def StoredFrom (dims : List Nat) (axis : Nat) (strides : Vector Nat dims.length) : Prop :=
  ∀ i (h : i < dims.length), axis ≤ i → strides[i] = (dims.drop (i + 1)).prod

theorem StoredFrom.toList_eq (h : StoredFrom dims 0 strides) :
    strides.toList = laterProducts dims := by
  apply List.ext_getElem
  · rw [Vector.length_toList, length_laterProducts]
  · intro i hi _
    rw [Vector.length_toList] at hi
    have hlater := getElem?_laterProducts hi
    rw [List.getElem?_eq_some_iff] at hlater
    rcases hlater with ⟨_, hlater⟩
    rw [hlater, Vector.getElem_toList]
    exact h i hi (Nat.zero_le i)

/-- One step stores a stride, or rejects the extents for its size. -/
theorem storeStride_eq (hlength : dims.length < Size.limit) (haxis : axis + 1 < dims.length)
    (h : StoredFrom dims (axis + 1) strides) :
    storeStride dims axis strides =
      (do
        let size ← extentProduct dims (dims.drop (axis + 1 + 1)).prod dims[axis + 1]
        return strides.set axis size) := by
  have hplace : (axis + 1 : Offset).eval = .ok (axis + 1) :=
    Offset.eval_of_rises (by simp) (Nat.lt_trans haxis hlength)
  have hstride : fetchAt strides.toArray (axis + 1) = .ok (dims.drop (axis + 1 + 1)).prod := by
    rw [fetchAt_of_eval hplace, fetch, Array.getElem?_eq_getElem (by simpa using haxis),
      Vector.getElem_toArray, h (axis + 1) haxis (Nat.le_refl _)]
    rfl
  have hextent : fetchAt dims.toArray (axis + 1) = .ok dims[axis + 1] := by
    rw [fetchAt_of_eval hplace, fetch, List.getElem?_toArray, List.getElem?_eq_getElem haxis]
    rfl
  have hwrite : ∀ size, BufferM.run (BufferM.write axis size) strides =
      .ok (strides.set axis size) := by
    intro size
    rw [BufferM.run, BufferM.write, dif_pos (by omega)]
  rw [storeStride, hstride, fault_ok_bind, hextent, fault_ok_bind]
  cases hsize : extentProduct dims (dims.drop (axis + 1 + 1)).prod dims[axis + 1] with
  | error e =>
      rfl
  | ok size =>
      rw [error_ok_bind, error_ok_bind, hwrite]
      rfl

theorem StoredFrom.set (haxis : axis + 1 < dims.length) (h : StoredFrom dims (axis + 1) strides) :
    StoredFrom dims axis (strides.set axis (dims.drop (axis + 1)).prod) := by
  intro i hi hle
  rw [Vector.getElem_set]
  split
  · rename_i heq
    rw [heq]
  · exact h i hi (by omega)

/-- The whole loop, when the largest stride fits the word. -/
theorem storeStrides_of_lt (hpos : 0 ∉ dims) (hlength : dims.length < Size.limit)
    (hfirst : (dims.drop 1).prod < Size.limit) (haxis : axis < dims.length)
    (h : StoredFrom dims axis strides) :
    ∃ stored, storeStrides dims axis strides = .ok stored ∧ StoredFrom dims 0 stored := by
  induction axis generalizing strides with
  | zero =>
      exact ⟨strides, rfl, h⟩
  | succ axis ih =>
      have hprod := prod_drop haxis
      have hrest : 0 ∉ dims.drop 1 := fun hzero => hpos (List.mem_of_mem_drop hzero)
      have hle := prod_drop_le hrest axis
      rw [List.drop_drop, Nat.add_comm 1 axis] at hle
      have hstored : storeStride dims axis strides =
          .ok (strides.set axis (dims.drop (axis + 1)).prod) := by
        rw [storeStride_eq hlength haxis h, extentProduct_of_lt (by omega), ← hprod]
        rfl
      rw [storeStrides, hstored]
      exact ih (by omega) (h.set haxis)

/-- The whole loop, when the largest stride leaves the word. -/
theorem storeStrides_of_le (hlength : dims.length < Size.limit)
    (hfirst : Size.limit ≤ (dims.drop 1).prod) (haxis : axis < dims.length)
    (hfits : (dims.drop (axis + 1)).prod < Size.limit) (h : StoredFrom dims axis strides) :
    storeStrides dims axis strides = .error (.error (.invalidShape dims)) := by
  induction axis generalizing strides with
  | zero =>
      exact absurd hfits (Nat.not_lt.mpr hfirst)
  | succ axis ih =>
      have hprod := prod_drop haxis
      have hstep := storeStride_eq hlength haxis h
      rcases Nat.lt_or_ge (dims.drop (axis + 1)).prod Size.limit with hnext | hlarge
      · rw [extentProduct_of_lt (by omega), ← hprod] at hstep
        rw [storeStrides, hstep]
        exact ih (by omega) hnext (h.set haxis)
      · rw [extentProduct_of_le (by omega)] at hstep
        rw [storeStrides, hstep]
        rfl

/-- The construction after its first check, which keeps the ranks positive. -/
theorem ofDims_of_pos (hpos : 0 ∉ dims) (hlength : dims.length < Size.limit)
    (hrank : 0 < dims.length) :
    ofDims dims = (do
      let stored ← storeStrides dims (dims.length - 1) (Vector.replicate dims.length 1)
      let total ← extentProduct dims stored[0] dims[0]
      return (stored.toList, total)) := by
  have hlast : (dims.length - 1 : Offset).eval = .ok (dims.length - 1) :=
    Offset.eval_sub (Offset.eval_size hlength) (Offset.eval_size (by decide)) hrank
  have hfirst : (0 : Offset).eval = .ok 0 := Offset.eval_size (by decide)
  have hextent : fetchAt dims.toArray 0 = .ok dims[0] := by
    rw [fetchAt_of_eval hfirst, fetch, List.getElem?_toArray,
      List.getElem?_eq_getElem hrank]
    rfl
  have hstride : ∀ stored : Vector Nat dims.length,
      fetchAt stored.toArray 0 = .ok stored[0] := by
    intro stored
    rw [fetchAt_of_eval hfirst, fetch,
      Array.getElem?_eq_getElem (by simpa using hrank), Vector.getElem_toArray]
    rfl
  rw [ofDims, if_neg (not_or.mpr ⟨List.ne_nil_of_length_pos hrank, hpos⟩), hlast]
  simp only [hextent, hstride]
  rfl

/-- The checked construction is the construction of a shape: nothing in it faults. -/
theorem ofDims_eq (hlength : dims.length < Size.limit) :
    ofDims dims = (do
      let shape ← Shape.ofDims dims
      return (shape.strides, shape.total)) := by
  by_cases hrejected : dims = [] ∨ 0 ∈ dims
  · have hcountable : ¬ Shape.Countable dims := fun h => hrejected.elim h.1 h.2.1
    rw [Shape.ofDims_of_not_countable hcountable, ofDims, if_pos hrejected]
    rfl
  · rw [not_or] at hrejected
    rcases hrejected with ⟨hnil, hpos⟩
    have hrank : 0 < dims.length := List.length_pos_of_ne_nil hnil
    have hwhole := prod_drop hrank
    rw [List.drop_zero] at hwhole
    -- the strides after the last axis: the vector of ones holds the empty product there
    have hempty : (dims.drop (dims.length - 1 + 1)).prod = 1 := by
      rw [List.drop_of_length_le (by omega), List.prod_nil]
    have hones : StoredFrom dims (dims.length - 1) (Vector.replicate dims.length 1) := by
      intro i hi hle
      rw [Vector.getElem_replicate, show i = dims.length - 1 by omega, hempty]
    rw [ofDims_of_pos hpos hlength hrank]
    rcases Nat.lt_or_ge (dims.drop 1).prod Size.limit with hfirst | hfirst
    · rcases storeStrides_of_lt hpos hlength hfirst (by omega) hones with ⟨stored, hrun, hstored⟩
      rw [hrun]
      show (do
        let total ← extentProduct dims stored[0] dims[0]
        return (stored.toList, total) : Outcome _) = _
      rw [hstored 0 hrank (Nat.le_refl 0), hstored.toList_eq]
      rcases Nat.lt_or_ge dims.prod Size.limit with hprod | hprod
      · rcases Shape.ofDims_of_prod hnil hpos hprod with ⟨shape, hshape, hdims⟩
        rw [hshape, extentProduct_of_lt (by omega), error_ok_bind, error_ok_bind, shape.strides_eq,
          shape.total_eq_prod, hdims, hwhole]
      · have hcountable : ¬ Shape.Countable dims := fun h => Nat.not_lt.mpr hprod h.2.2
        rw [Shape.ofDims_of_not_countable hcountable, extentProduct_of_le (by omega)]
        rfl
    · have hcountable : ¬ Shape.Countable dims := by
        intro h
        exact Nat.not_lt.mpr (Nat.le_trans hfirst (prod_drop_le hpos 1)) h.2.2
      rw [storeStrides_of_le hlength hfirst (by omega) (by rw [hempty]; decide) hones,
        Shape.ofDims_of_not_countable hcountable]
      rfl

/-- Extents whose suffix leaves the word although the last products fit. -/
example : ofDims [3, 0xffffffff, 0x100000001, 2] =
    .error (.error (.invalidShape [3, 0xffffffff, 0x100000001, 2])) := by
  decide +kernel

end Word

/-!
## The decision
-/

/-- What the construction of a shape decides and what it returns, in agreement with the product
that the weights of a filter are counted by. -/
structure Shape.Decided (dims : List Nat) : Prop where
  accepted_iff : (∃ shape, ofDims dims = .ok shape) ↔
    dims ≠ [] ∧ 0 ∉ dims ∧ dims.prod < Size.limit
  rejected : (¬ ∃ shape, ofDims dims = .ok shape) → ofDims dims = .error (.invalidShape dims)
  products : ∀ shape, ofDims dims = .ok shape →
    shape.dims = dims ∧ shape.total = dims.prod ∧ shape.strides.length = dims.length ∧
      ∀ i < dims.length, shape.strides[i]? = some (dims.drop (i + 1)).prod
  word : dims.length < Size.limit → Word.ofDims dims = (do
    let shape ← ofDims dims
    return (shape.strides, shape.total))
  overflows_iff : 0 ∉ dims → (measure? dims = none ↔ Size.product? dims = none)
  size_eq : ∀ shape : FilterShape, shape.dims = dims → 0 ∉ dims →
    shape.size? = (ofDims dims).toOption.map total

theorem Shape.decided (dims : List Nat) : Decided dims where
  accepted_iff := exists_ofDims_iff
  rejected h := ofDims_of_not_countable (exists_ofDims_iff.not.mp h)
  products shape hshape := by
    have hdims := dims_ofDims hshape
    have hstrides := shape.strides_eq
    rw [hdims] at hstrides
    refine ⟨hdims, ?_, ?_, ?_⟩
    · rw [shape.total_eq_prod, hdims]
    · rw [hstrides, length_laterProducts]
    · intro i hi
      rw [hstrides, getElem?_laterProducts hi]
  word := Word.ofDims_eq
  overflows_iff hpos := by
    rw [measure?_eq_none_iff_of_pos hpos, Size.product?_eq_none_iff_of_pos hpos]
  size_eq filter hdims hpos := by
    have hnil : dims ≠ [] := hdims ▸ List.cons_ne_nil _ _
    rw [FilterShape.size?, hdims]
    rcases Nat.lt_or_ge dims.prod Size.limit with hprod | hprod
    · rcases ofDims_of_prod hnil hpos hprod with ⟨shape, hshape, hshapeDims⟩
      rw [Size.product?_of_prod hpos hprod, hshape, ← hshapeDims, ← shape.total_eq_prod]
      rfl
    · have hcountable : ¬ Countable dims := fun h => Nat.not_lt.mpr hprod h.2.2
      rw [(Size.product?_eq_none_iff_of_pos hpos).mpr hprod, ofDims_of_not_countable hcountable]
      rfl

end ConvSweep
