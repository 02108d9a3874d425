import Mathlib
import ConvSweep.Proofs.Cellwise
import ConvSweep.Proofs.Outcome
import ConvSweep.Tensor.Basic

/-!
# Cells of tensors

A buffer of rank four is read through a view, a function of the four coordinates.
`Holds data d₀ d₁ d₂ d₃ x` says that a buffer has the length of the extents and
shows `x` in row-major order.  Kernels are specified from views to views, so that
their index arithmetic stays inside their own proofs.
-/

namespace ConvSweep

open Loop

variable {α : Type}

/-!
## Tabulated buffers
-/

/-- The buffer of `f 0`, `f 1`, … of the given length. -/
def tabulate (length : Nat) (f : Nat → α) : Array α :=
  ((List.range length).map f).toArray

@[simp] theorem size_tabulate (length : Nat) (f : Nat → α) :
    (tabulate length f).size = length := by
  simp [tabulate]

@[simp] theorem toList_tabulate (length : Nat) (f : Nat → α) :
    (tabulate length f).toList = (List.range length).map f := rfl

@[simp] theorem getElem_tabulate {length : Nat} {f : Nat → α} {i : Nat}
    (h : i < (tabulate length f).size) : (tabulate length f)[i] = f i := by
  simp [tabulate]

theorem tabulate_congr {length : Nat} {f g : Nat → α} (h : ∀ i < length, f i = g i) :
    tabulate length f = tabulate length g := by
  apply Array.ext
  · simp
  · intro i hi _
    rw [size_tabulate] at hi
    simp [h i hi]

theorem eq_tabulate {data : Array α} {f : Nat → α}
    (h : ∀ i < data.size, data[i]? = some (f i)) : data = tabulate data.size f := by
  apply Array.ext
  · simp
  · intro i hi _
    have hget := h i hi
    rw [Array.getElem?_eq_getElem hi] at hget
    simpa using hget

theorem toArray_mapIdx_replicate (length : Nat) (g : Nat → α → α) (x : α) :
    ((Vector.replicate length x).mapIdx g).toArray = tabulate length fun i => g i x := by
  apply Array.ext
  · simp
  · intro i _ _
    simp

theorem getD_tabulate {length : Nat} {f : Nat → α} {i : Nat} (h : i < length) (x : α) :
    (tabulate length f).getD i x = f i := by
  have hi : i < (tabulate length f).size := by simpa using h
  simp only [Array.getD, dif_pos hi]
  exact getElem_tabulate hi

theorem fetch_tabulate {length : Nat} {f : Nat → α} {i : Nat} (h : i < length) :
    fetch (tabulate length f) i = .ok (f i) := by
  have hi : i < (tabulate length f).size := by simpa using h
  rw [fetch, Array.getElem?_eq_getElem hi, getElem_tabulate]
  rfl

theorem slice_eq_tabulate {data : Array α} {start length : Nat} {f : Nat → α}
    (hfit : start + length ≤ data.size)
    (h : ∀ i < length, data[start + i]? = some (f i)) :
    slice data start length = .ok (tabulate length f) := by
  rw [slice, if_pos hfit]
  congr 1
  apply Array.ext
  · rw [Array.size_extract, size_tabulate]
    omega
  · intro i hi _
    rw [Array.size_extract] at hi
    have hget := h i (by omega)
    rw [Array.getElem?_eq_getElem (by omega)] at hget
    rw [Array.getElem_extract, getElem_tabulate]
    exact Option.some.inj hget

theorem slice_tabulate {size start length : Nat} {f : Nat → α} (hfit : start + length ≤ size) :
    slice (tabulate size f) start length = .ok (tabulate length fun i => f (start + i)) := by
  apply slice_eq_tabulate
  · rw [size_tabulate]
    exact hfit
  · intro i hi
    have hlt : start + i < (tabulate size f).size := by
      rw [size_tabulate]
      omega
    rw [Array.getElem?_eq_getElem hlt, getElem_tabulate]

/-- A longer range consists of distinct places and a rest. -/
theorem exists_rest {n m : Nat} {place : Nat → Nat} (hlt : ∀ i < n, place i < m)
    (hinj : ∀ i < n, ∀ j < n, place i = place j → i = j) :
    ∃ rest, (List.range m).Perm ((List.range n).map place ++ rest) := by
  have hnodup : ((List.range n).map place).Nodup := by
    apply List.Nodup.map_on _ List.nodup_range
    intro i hi j hj
    exact hinj i (List.mem_range.mp hi) j (List.mem_range.mp hj)
  have hsubset : (List.range n).map place ⊆ List.range m := by
    intro j hj
    rcases List.mem_map.mp hj with ⟨i, hi, rfl⟩
    exact List.mem_range.mpr (hlt i (List.mem_range.mp hi))
  rcases List.subperm_of_subset hnodup hsubset with ⟨places, hperm, hsublist⟩
  rcases hsublist.exists_perm_append with ⟨rest, hrest⟩
  exact ⟨rest, hrest.trans (hperm.append_right rest)⟩

/-- A buffer that shows another one at distinct places and `x` at all places that remain holds the
values of the other and `x`, as often as places remain. -/
theorem tabulate_perm_append {n m : Nat} {f g : Nat → α} {x : α} (place : Nat → Nat)
    (hlt : ∀ i < n, place i < m) (hinj : ∀ i < n, ∀ j < n, place i = place j → i = j)
    (h : ∀ i < n, f (place i) = g i) (hrest : ∀ i < m, (∀ j < n, i ≠ place j) → f i = x) :
    (tabulate m f).toList.Perm ((tabulate n g).toList ++ List.replicate (m - n) x) := by
  rcases exists_rest hlt hinj with ⟨rest, hperm⟩
  have hlength : rest.length = m - n := by
    have hsum := hperm.length_eq
    rw [List.length_append, List.length_map, List.length_range, List.length_range] at hsum
    omega
  have hplaces : ((List.range n).map place).map f = (List.range n).map g := by
    rw [List.map_map]
    exact List.map_congr_left fun i hi => h i (List.mem_range.mp hi)
  have hremaining : rest.map f = List.replicate (m - n) x := by
    rw [← hlength, ← List.map_const']
    apply List.map_congr_left
    intro i hi
    have hi' : i ∈ List.range m := hperm.mem_iff.mpr (List.mem_append_right _ hi)
    apply hrest i (List.mem_range.mp hi')
    rintro j hj rfl
    have hdisjoint := List.disjoint_of_nodup_append (hperm.nodup_iff.mp List.nodup_range)
    exact hdisjoint (List.mem_map_of_mem (List.mem_range.mpr hj)) hi
  have hmap := hperm.map f
  rw [List.map_append, hplaces, hremaining] at hmap
  exact hmap

/-- Buffers that hold the same values at the ends of a renumbering hold them in another order. -/
theorem tabulate_perm {length : Nat} {f g : Nat → α} (renumber : Nat → Nat)
    (hlt : ∀ i < length, renumber i < length)
    (hinj : ∀ i < length, ∀ j < length, renumber i = renumber j → i = j)
    (h : ∀ i < length, f i = g (renumber i)) :
    (tabulate length f).toList.Perm (tabulate length g).toList := by
  rcases exists_rest hlt hinj with ⟨rest, hperm⟩
  have hnil : rest = [] := by
    have hsum := hperm.length_eq
    rw [List.length_append, List.length_map, Nat.left_eq_add] at hsum
    exact List.length_eq_zero_iff.mp hsum
  have hsame : (List.range length).map f = ((List.range length).map renumber).map g := by
    rw [List.map_map]
    exact List.map_congr_left fun i hi => h i (List.mem_range.mp hi)
  rw [hnil, List.append_nil] at hperm
  rw [toList_tabulate, toList_tabulate, hsame]
  exact (hperm.map g).symm

/-!
## Reading within the bounds
-/

theorem fetch_ok {data : Array α} {i : Nat} (h : i < data.size) (x : α) :
    fetch data i = .ok (data.getD i x) := by
  rw [fetch, Array.getElem?_eq_getElem h, Array.getD, dif_pos h]
  rfl

theorem getD_of_getElem? {data : Array α} {i : Nat} {y : α} (h : data[i]? = some y) (x : α) :
    data.getD i x = y := by
  rw [Array.getD_eq_getD_getElem?, h]
  rfl

theorem slice_ok {data : Array α} {start length : Nat} (h : start + length ≤ data.size) (x : α) :
    slice data start length = .ok (tabulate length fun i => data.getD (start + i) x) := by
  apply slice_eq_tabulate h
  intro i hi
  have hlt : start + i < data.size := Nat.lt_of_lt_of_le (Nat.add_lt_add_left hi start) h
  rw [Array.getElem?_eq_getElem hlt, Array.getD, dif_pos hlt]
  rfl

/-!
## Rows
-/

/-- The buffer shows the matrix `A`, row after row. -/
structure HoldsRows (data : Array α) (rows cols : Nat) (A : Nat → Nat → α) : Prop where
  size_eq : data.size = rows * cols
  getElem?_eq : ∀ i < rows, ∀ j < cols, data[i * cols + j]? = some (A i j)

namespace HoldsRows

variable {data : Array α} {rows cols : Nat} {A : Nat → Nat → α}

theorem slice_row (h : HoldsRows data rows cols A) {i : Nat} (hi : i < rows) :
    slice data (i * cols) cols = .ok (tabulate cols (A i)) := by
  apply slice_eq_tabulate
  · rw [h.size_eq]
    exact mul_add_le cols hi
  · intro j hj
    exact h.getElem?_eq i hi j hj

theorem extract_row (h : HoldsRows data rows cols A) {i : Nat} (hi : i < rows) :
    data.extract (i * cols) ((i + 1) * cols) = tabulate cols (A i) := by
  have hslice := h.slice_row hi
  have hfit : i * cols + cols ≤ data.size := by
    rw [h.size_eq]
    exact mul_add_le cols hi
  rw [slice, if_pos hfit] at hslice
  rw [Nat.succ_mul]
  exact Except.ok.inj hslice

/-- A stretch of whole rows. -/
theorem slice_rows (h : HoldsRows data rows cols A) {first count : Nat}
    (hfit : first + count ≤ rows) :
    ∃ part, slice data (first * cols) (count * cols) = .ok part ∧
      HoldsRows part count cols (fun i j => A (first + i) j) ∧ part.size ≤ data.size := by
  have hend : first * cols + count * cols ≤ data.size := by
    rw [h.size_eq, ← Nat.add_mul]
    exact Nat.mul_le_mul_right cols hfit
  refine ⟨data.extract (first * cols) (first * cols + count * cols), ?_, ⟨?_, ?_⟩, ?_⟩
  · rw [slice, if_pos hend]
  · rw [Array.size_extract]
    omega
  · intro i hi j hj
    have hplace := add_mul_lt hi hj
    have hlt : i * cols + j < first * cols + count * cols - first * cols := by omega
    rw [Array.getElem?_extract, if_pos (by omega), ← Nat.add_assoc, ← Nat.add_mul]
    exact h.getElem?_eq (first + i) (by omega) j hj
  · rw [Array.size_extract]
    omega

theorem congr {B : Nat → Nat → α} (h : HoldsRows data rows cols A)
    (hAB : ∀ i < rows, ∀ j < cols, A i j = B i j) : HoldsRows data rows cols B where
  size_eq := h.size_eq
  getElem?_eq i hi j hj := by
    rw [h.getElem?_eq i hi j hj, hAB i hi j hj]

theorem unique {B : Nat → Nat → α} (h : HoldsRows data rows cols A)
    (hB : HoldsRows data rows cols B) {i j : Nat} (hi : i < rows) (hj : j < cols) :
    A i j = B i j := by
  have hentry := h.getElem?_eq i hi j hj
  rw [hB.getElem?_eq i hi j hj] at hentry
  exact (Option.some.inj hentry).symm

end HoldsRows

/-- A buffer as a matrix of the elements that it holds. -/
theorem holdsRows_self [Zero α] {data : Array α} {rows cols : Nat}
    (h : data.size = rows * cols) :
    HoldsRows data rows cols fun i j => data.getD (i * cols + j) 0 where
  size_eq := h
  getElem?_eq i hi j hj := by
    have hlt : i * cols + j < data.size := by
      rw [h]
      exact add_mul_lt hi hj
    simp [Array.getD, hlt]

theorem holdsRows_tabulate {length rows cols : Nat} (f : Nat → α) (h : length = rows * cols) :
    HoldsRows (tabulate length f) rows cols fun i j => f (i * cols + j) where
  size_eq := by
    rw [size_tabulate, h]
  getElem?_eq i hi j hj := by
    have hlt : i * cols + j < (tabulate length f).size := by
      rw [size_tabulate, h]
      exact add_mul_lt hi hj
    rw [Array.getElem?_eq_getElem hlt, getElem_tabulate]

/-!
## Row-major order
-/

/-- The place of an element of rank four, from its coordinates and all extents but the first. -/
def rowMajor (d₁ d₂ d₃ a b c d : Nat) : Nat :=
  ((a * d₁ + b) * d₂ + c) * d₃ + d

theorem rowMajor_lt {d₀ d₁ d₂ d₃ a b c d : Nat} (ha : a < d₀) (hb : b < d₁) (hc : c < d₂)
    (hd : d < d₃) : rowMajor d₁ d₂ d₃ a b c d < d₀ * d₁ * d₂ * d₃ :=
  add_mul_lt (add_mul_lt (add_mul_lt ha hb) hc) hd

/-- Elements that vary in the last coordinate lie side by side. -/
theorem rowMajor_add (d₁ d₂ d₃ a b c d e : Nat) :
    rowMajor d₁ d₂ d₃ a b c d + e = rowMajor d₁ d₂ d₃ a b c (d + e) := by
  rw [rowMajor, rowMajor, Nat.add_assoc]

theorem decode_lt {d₀ d₁ d₂ d₃ i : Nat} (h : i < d₀ * d₁ * d₂ * d₃) :
    i / d₃ / d₂ / d₁ < d₀ ∧ i / d₃ / d₂ % d₁ < d₁ ∧ i / d₃ % d₂ < d₂ ∧ i % d₃ < d₃ := by
  have h₂ := div_lt_of_lt_mul h
  have h₁ := div_lt_of_lt_mul h₂
  exact ⟨div_lt_of_lt_mul h₁, mod_lt_of_lt_mul h₁, mod_lt_of_lt_mul h₂, mod_lt_of_lt_mul h⟩

theorem exists_rowMajor {d₀ d₁ d₂ d₃ i : Nat} (h : i < d₀ * d₁ * d₂ * d₃) :
    ∃ a < d₀, ∃ b < d₁, ∃ c < d₂, ∃ d < d₃, i = rowMajor d₁ d₂ d₃ a b c d := by
  rcases decode_lt h with ⟨ha, hb, hc, hd⟩
  refine ⟨_, ha, _, hb, _, hc, _, hd, ?_⟩
  rw [rowMajor, Nat.div_add_mod', Nat.div_add_mod', Nat.div_add_mod']

/-- The elements of a view in row-major order. -/
def spread (d₁ d₂ d₃ : Nat) (x : Nat → Nat → Nat → Nat → α) (i : Nat) : α :=
  x (i / d₃ / d₂ / d₁) (i / d₃ / d₂ % d₁) (i / d₃ % d₂) (i % d₃)

theorem spread_rowMajor {d₁ d₂ d₃ a b c d : Nat} {x : Nat → Nat → Nat → Nat → α} (hb : b < d₁)
    (hc : c < d₂) (hd : d < d₃) :
    spread d₁ d₂ d₃ x (rowMajor d₁ d₂ d₃ a b c d) = x a b c d := by
  rw [spread, rowMajor, add_mul_div_of_lt hd, add_mul_mod_of_lt hd, add_mul_div_of_lt hc,
    add_mul_mod_of_lt hc, add_mul_div_of_lt hb, add_mul_mod_of_lt hb]

/-- Elements in different places have different coordinates. -/
theorem rowMajor_inj {d₁ d₂ d₃ a b c d a' b' c' d' : Nat} (hb : b < d₁) (hc : c < d₂) (hd : d < d₃)
    (hb' : b' < d₁) (hc' : c' < d₂) (hd' : d' < d₃)
    (h : rowMajor d₁ d₂ d₃ a b c d = rowMajor d₁ d₂ d₃ a' b' c' d') :
    a = a' ∧ b = b' ∧ c = c' ∧ d = d' := by
  have hcoords := congrArg (spread d₁ d₂ d₃ fun a b c d => (a, b, c, d)) h
  rw [spread_rowMajor hb hc hd, spread_rowMajor hb' hc' hd'] at hcoords
  simpa using hcoords

/-!
## Views
-/

/-- The buffer has the length of the extents and shows the view in row-major order. -/
structure Holds (data : Array α) (d₀ d₁ d₂ d₃ : Nat) (x : Nat → Nat → Nat → Nat → α) : Prop where
  size_eq : data.size = d₀ * d₁ * d₂ * d₃
  getElem?_eq : ∀ a < d₀, ∀ b < d₁, ∀ c < d₂, ∀ d < d₃,
    data[rowMajor d₁ d₂ d₃ a b c d]? = some (x a b c d)

namespace Holds

variable {data : Array α} {d₀ d₁ d₂ d₃ : Nat} {x : Nat → Nat → Nat → Nat → α}

theorem fetch_eq (h : Holds data d₀ d₁ d₂ d₃ x) {a b c d i : Nat} (ha : a < d₀) (hb : b < d₁)
    (hc : c < d₂) (hd : d < d₃) (hi : i = rowMajor d₁ d₂ d₃ a b c d) :
    fetch data i = .ok (x a b c d) := by
  rw [fetch, hi, h.getElem?_eq a ha b hb c hc d hd]
  rfl

/-- A slice along the last axis. -/
theorem slice_eq (h : Holds data d₀ d₁ d₂ d₃ x) {a b c d length i : Nat} (ha : a < d₀)
    (hb : b < d₁) (hc : c < d₂) (hd : d + length ≤ d₃) (hpos : 0 < length)
    (hi : i = rowMajor d₁ d₂ d₃ a b c d) :
    slice data i length = .ok (tabulate length fun e => x a b c (d + e)) := by
  have hlast : rowMajor d₁ d₂ d₃ a b c (d + (length - 1)) < d₀ * d₁ * d₂ * d₃ :=
    rowMajor_lt ha hb hc (by omega)
  rw [← rowMajor_add, ← hi] at hlast
  apply slice_eq_tabulate
  · rw [h.size_eq]
    omega
  · intro e he
    rw [hi, rowMajor_add]
    exact h.getElem?_eq a ha b hb c hc (d + e) (by omega)

theorem eq_tabulate (h : Holds data d₀ d₁ d₂ d₃ x) :
    data = tabulate (d₀ * d₁ * d₂ * d₃) (spread d₁ d₂ d₃ x) := by
  rw [← h.size_eq]
  apply ConvSweep.eq_tabulate
  intro i hi
  rw [h.size_eq] at hi
  rcases exists_rowMajor hi with ⟨a, ha, b, hb, c, hc, d, hd, hEq⟩
  rw [hEq, spread_rowMajor hb hc hd]
  exact h.getElem?_eq a ha b hb c hc d hd

/-- The view is determined by the buffer, up to its values outside of the extents. -/
theorem congr {y : Nat → Nat → Nat → Nat → α} (h : Holds data d₀ d₁ d₂ d₃ x)
    (hxy : ∀ a < d₀, ∀ b < d₁, ∀ c < d₂, ∀ d < d₃, x a b c d = y a b c d) :
    Holds data d₀ d₁ d₂ d₃ y where
  size_eq := h.size_eq
  getElem?_eq a ha b hb c hc d hd := by
    rw [h.getElem?_eq a ha b hb c hc d hd, hxy a ha b hb c hc d hd]

/-- Buffers of the same extents that show the same values are equal. -/
theorem unique {other : Array α} {y : Nat → Nat → Nat → Nat → α}
    (h : Holds data d₀ d₁ d₂ d₃ x) (hother : Holds other d₀ d₁ d₂ d₃ y)
    (hxy : ∀ a < d₀, ∀ b < d₁, ∀ c < d₂, ∀ d < d₃, x a b c d = y a b c d) : data = other := by
  rw [(h.congr hxy).eq_tabulate, hother.eq_tabulate]

end Holds

theorem holds_tabulate (d₀ d₁ d₂ d₃ : Nat) (x : Nat → Nat → Nat → Nat → α) :
    Holds (tabulate (d₀ * d₁ * d₂ * d₃) (spread d₁ d₂ d₃ x)) d₀ d₁ d₂ d₃ x where
  size_eq := size_tabulate _ _
  getElem?_eq a ha b hb c hc d hd := by
    have hi := rowMajor_lt ha hb hc hd
    rw [Array.getElem?_eq_getElem (by simpa using hi), getElem_tabulate,
      spread_rowMajor hb hc hd]

/-!
## Shapes
-/

theorem measure?_cons {d : Nat} {rest strides : List Nat} {total : Nat}
    (h : measure? (d :: rest) = some (strides, total)) :
    ∃ strides' size, measure? rest = some (strides', size) ∧ Size.Fits (size * d) ∧
      strides = size :: strides' ∧ total = size * d := by
  rw [measure?] at h
  cases hrest : measure? rest with
  | none =>
      rw [hrest] at h
      cases h
  | some found =>
      rcases found with ⟨strides', size⟩
      rw [hrest] at h
      by_cases hfits : Size.Fits (size * d)
      · simp only [Option.bind_eq_bind, Option.bind_some, Size.mul?, if_pos hfits] at h
        cases h
        exact ⟨strides', size, rfl, hfits, rfl, rfl⟩
      · simp only [Option.bind_eq_bind, Option.bind_some, Size.mul?, if_neg hfits] at h
        cases h

theorem total_of_measure? {dims strides : List Nat} {total : Nat}
    (h : measure? dims = some (strides, total)) : total = dims.prod := by
  induction dims generalizing strides total with
  | nil =>
      cases h
      rfl
  | cons d rest ih =>
      rcases measure?_cons h with ⟨strides', size, hrest, _, _, htotal⟩
      rw [htotal, ih hrest, List.prod_cons, Nat.mul_comm]

/-- Positive extents with a representable product can be measured. -/
theorem measure?_of_prod {dims : List Nat} (hpos : 0 ∉ dims) (hprod : dims.prod < Size.limit) :
    ∃ strides, measure? dims = some (strides, dims.prod) := by
  induction dims with
  | nil =>
      exact ⟨[], rfl⟩
  | cons d rest ih =>
      rw [List.mem_cons, not_or] at hpos
      rw [List.prod_cons] at hprod
      have hle : rest.prod ≤ d * rest.prod := Nat.le_mul_of_pos_left _ (by omega)
      rcases ih hpos.2 (by omega) with ⟨strides, hrest⟩
      refine ⟨rest.prod :: strides, ?_⟩
      have hfits : Size.Fits (rest.prod * d) := by
        rw [Size.Fits, Nat.mul_comm]
        exact hprod
      rw [measure?, hrest, List.prod_cons, Nat.mul_comm d]
      simp only [Option.bind_eq_bind, Option.bind_some, Size.mul?, if_pos hfits]
      rfl

/-- The row-major place of coordinates within extents. -/
def placeOf : List Nat → List Nat → Nat
  | _ :: dims, c :: coords => c * dims.prod + placeOf dims coords
  | _, _ => 0

theorem placeOf_lt {dims coords : List Nat} (h : List.Forall₂ (· < ·) coords dims) :
    placeOf dims coords < dims.prod := by
  induction h with
  | nil =>
      exact Nat.one_pos
  | cons hc _ ih =>
      rw [placeOf, List.prod_cons]
      exact add_mul_lt hc ih

/-- Coordinates times strides add up to the place. -/
theorem sum_strides {dims strides coords : List Nat} {total : Nat}
    (hm : measure? dims = some (strides, total)) (hlength : coords.length = dims.length) :
    (List.zipWith (· * ·) coords strides).foldr (· + ·) 0 = placeOf dims coords := by
  induction dims generalizing strides total coords with
  | nil =>
      cases hm
      rw [List.length_eq_zero_iff.mp hlength]
      rfl
  | cons d rest ih =>
      rcases measure?_cons hm with ⟨strides', size, hrest, _, hstrides, _⟩
      cases coords with
      | nil =>
          cases hlength
      | cons c coords =>
          rw [hstrides, List.zipWith_cons_cons, List.foldr_cons, ih hrest (Nat.succ.inj hlength),
            total_of_measure? hrest, placeOf]

namespace Shape

theorem total_eq_prod (shape : Shape) : shape.total = shape.dims.prod :=
  total_of_measure? shape.measured

theorem ext_dims {s t : Shape} (h : s.dims = t.dims) : s = t := by
  rcases s with ⟨dims, strides, total, _, _, hs⟩
  rcases t with ⟨dims', strides', total', _, _, ht⟩
  cases h
  rw [hs] at ht
  cases ht
  rfl

theorem total_lt_limit (shape : Shape) : shape.total < Size.limit := by
  rcases shape with ⟨dims, strides, total, hnil, _, hm⟩
  cases dims with
  | nil =>
      exact absurd rfl hnil
  | cons d rest =>
      rcases measure?_cons hm with ⟨_, _, _, hfits, _, htotal⟩
      show total < Size.limit
      rw [htotal]
      exact hfits

theorem dims_ofDims {dims : List Nat} {shape : Shape} (h : ofDims dims = .ok shape) :
    shape.dims = dims := by
  rw [ofDims] at h
  cases hs : ofDims? dims with
  | none =>
      rw [hs] at h
      cases h
  | some found =>
      rw [hs] at h
      cases h
      rw [ofDims?] at hs
      split at hs
      · cases hs
      · split at hs
        · cases hs
        · split at hs
          · cases hs
            rfl
          · cases hs

theorem ofDims_of_prod {dims : List Nat} (hnil : dims ≠ []) (hpos : 0 ∉ dims)
    (hprod : dims.prod < Size.limit) : ∃ shape, ofDims dims = .ok shape ∧ shape.dims = dims := by
  rcases measure?_of_prod hpos hprod with ⟨strides, hm⟩
  have hshape : ofDims? dims = some ⟨dims, strides, dims.prod, hnil, hpos, hm⟩ := by
    rw [ofDims?, dif_neg hnil, dif_neg hpos]
    split
    · rename_i found total hfound
      rw [hm] at hfound
      cases hfound
      rfl
    · rename_i hnone
      rw [hm] at hnone
      cases hnone
  exact ⟨⟨dims, strides, dims.prod, hnil, hpos, hm⟩, by rw [ofDims, hshape], rfl⟩

theorem quad_eq {shape : Shape} {a b c d : Nat} (h : shape.dims = [a, b, c, d]) :
    shape.quad = .ok (a, b, c, d) := by
  rw [quad, h]

theorem of_quad {shape : Shape} {a b c d : Nat} (h : shape.quad = .ok (a, b, c, d)) :
    shape.dims = [a, b, c, d] := by
  rw [quad] at h
  split at h
  · rename_i hdims
    cases h
    exact hdims
  · cases h

theorem quad_of_rank {shape : Shape} (h : shape.rank ≠ 4) :
    shape.quad = .error (.rankMismatch shape.rank 4) := by
  rw [quad]
  split
  · rename_i hdims
    exact absurd (congrArg List.length hdims) h
  · rfl

theorem validate_quad_iff {shape : Shape} {a b c d b' c' d' : Nat}
    (h : shape.dims = [a, b, c, d]) :
    shape.validate [.any, .exactly b', .exactly c', .exactly d'] = true ↔
      b' = b ∧ c' = c ∧ d' = d := by
  simp [validate, h, rank, ExtentPattern.admits]

theorem quad_pos {shape : Shape} {a b c d : Nat} (h : shape.dims = [a, b, c, d]) :
    0 < a ∧ 0 < b ∧ 0 < c ∧ 0 < d := by
  have hzero := shape.dims_ne_zero
  simp only [h, List.mem_cons, List.not_mem_nil, or_false, not_or] at hzero
  omega

theorem total_quad {shape : Shape} {a b c d : Nat} (h : shape.dims = [a, b, c, d]) :
    shape.total = a * b * c * d := by
  rw [total_eq_prod, h]
  simp [Nat.mul_assoc]

/-- The offset is the row-major place, as long as it is representable. -/
theorem flatIndex_of_length {shape : Shape} {coords : List Nat}
    (h : coords.length = shape.dims.length) :
    shape.flatIndex coords = Size.checked (placeOf shape.dims coords) := by
  rw [flatIndex, sum_strides shape.measured h]
  exact check_bind h _

theorem flatIndex_quad {shape : Shape} {d₀ d₁ d₂ d₃ a b c d : Nat}
    (h : shape.dims = [d₀, d₁, d₂, d₃]) :
    shape.flatIndex [a, b, c, d] = Size.checked (rowMajor d₁ d₂ d₃ a b c d) := by
  have hplace : placeOf [d₀, d₁, d₂, d₃] [a, b, c, d] = rowMajor d₁ d₂ d₃ a b c d := by
    simp only [placeOf, rowMajor, List.prod_cons, List.prod_nil]
    ring
  rw [flatIndex_of_length (by rw [h]; rfl), h, hplace]

/-- Coordinates within the extents have an offset, and it lies in the buffer. -/
theorem flatIndex_of_lt {shape : Shape} {coords : List Nat}
    (h : List.Forall₂ (· < ·) coords shape.dims) :
    shape.flatIndex coords = .ok (placeOf shape.dims coords) ∧
      placeOf shape.dims coords < shape.total := by
  have hlt := placeOf_lt h
  rw [← total_eq_prod] at hlt
  rw [flatIndex_of_length h.length_eq,
    Size.checked_of_lt (Nat.lt_trans hlt shape.total_lt_limit)]
  exact ⟨rfl, hlt⟩

end Shape
end ConvSweep
