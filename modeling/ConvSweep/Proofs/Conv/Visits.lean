import Mathlib
import ConvSweep.Proofs.Conv.Direct
import ConvSweep.Proofs.Recorded
import ConvSweep.Proofs.Word.Direct

/-!
# Visits of the direct convolution

The direct loops in NCHW order go through a plane tile by tile, and through the
planes in any order.  They write every output element exactly once: the places that
they visit are those of the output in another order, whatever the extents of the
tile are.  What they write is the sum over the receptive field of the element, from
zero and in ascending order of channel, row and column, so neither the tile nor the
order of the planes nor the old output shows in it.
-/

namespace ConvSweep

open BufferM Loop

/-!
## Tiles of a plane
-/

/-- The places of a row-major plane, tile by tile. -/
def tilePlaces (rows cols tileRows tileCols : Nat) : List Nat :=
  (List.range (strideCount rows tileRows)).flatMap fun s =>
    (List.range (strideCount cols tileCols)).flatMap fun t =>
      (List.range' (s * tileRows) (min (s * tileRows + tileRows) rows - s * tileRows)).flatMap
        fun y =>
          (List.range' (t * tileCols)
              (min (t * tileCols + tileCols) cols - t * tileCols)).map fun z => y * cols + z

/-- Two nested loops visit the same pairs whichever of them is the inner one. -/
theorem flatMap_swap_perm {β γ δ : Type} (outer : List β) (inner : List γ)
    (f : β → γ → List δ) :
    (outer.flatMap fun b => inner.flatMap fun c => f b c).Perm
      (inner.flatMap fun c => outer.flatMap fun b => f b c) := by
  have hswap := Multiset.bind_bind (outer : Multiset β) (inner : Multiset γ)
    (f := fun b c => (f b c : Multiset δ))
  simpa only [Multiset.coe_bind, Multiset.coe_eq_coe] using hswap

theorem flatMap_range_mul {γ : Type} (m n : Nat) (f : Nat → γ) :
    ((List.range m).flatMap fun i => (List.range n).map fun j => f (i * n + j)) =
      (List.range (m * n)).map f := by
  induction m with
  | zero =>
      rw [Nat.zero_mul]
      rfl
  | succ m ih =>
      rw [List.range_succ, List.flatMap_append, ih, List.flatMap_singleton, Nat.succ_mul,
        List.range_add, List.map_append, List.map_map]
      rfl

/-- Tiles cover a plane without a gap and without an overlap. -/
theorem tilePlaces_perm {rows cols tileRows tileCols : Nat} (hrows : 0 < tileRows)
    (hcols : 0 < tileCols) :
    (tilePlaces rows cols tileRows tileCols).Perm (List.range (rows * cols)) := by
  have hstrip : ∀ s, ((List.range (strideCount cols tileCols)).flatMap fun t =>
      (List.range' (s * tileRows) (min (s * tileRows + tileRows) rows - s * tileRows)).flatMap
        fun y =>
          (List.range' (t * tileCols)
            (min (t * tileCols + tileCols) cols - t * tileCols)).map fun z => y * cols + z).Perm
      ((List.range' (s * tileRows) (min (s * tileRows + tileRows) rows - s * tileRows)).flatMap
        fun y => (List.range cols).map fun z => y * cols + z) := by
    intro s
    refine (flatMap_swap_perm _ _ _).trans (List.Perm.of_eq ?_)
    congr 1
    funext y
    rw [← List.map_flatMap, flatMap_tiles hcols]
  have hplane : ((List.range (strideCount rows tileRows)).flatMap fun s =>
      (List.range' (s * tileRows) (min (s * tileRows + tileRows) rows - s * tileRows)).flatMap
        fun y => (List.range cols).map fun z => y * cols + z) = List.range (rows * cols) := by
    rw [← List.flatMap_assoc, flatMap_tiles hrows]
    exact (flatMap_range_mul rows cols id).trans (List.map_id _)
  rw [← hplane]
  exact List.Perm.flatMap_left _ fun s _ => hstrip s

namespace Problem

variable {α : Type} [Zero α] [Add α] [Mul α]

/-!
## Receptive fields
-/

/-- The taps of a filter in ascending order of channel, row and column. -/
def taps (p : Problem) : List Tap :=
  (List.range p.inChannels).flatMap fun c =>
    (List.range p.kernel).flatMap fun kh =>
      (List.range p.kernel).map fun kw => ⟨c, kh, kw⟩

/-- Whether the tap lies within the rows and columns of the prepared input. -/
def InBounds (p : Problem) (oh ow : Nat) (t : Tap) : Prop :=
  (p.halo ≤ oh + t.row ∧ oh + t.row - p.halo < p.inputRows) ∧
    p.halo ≤ ow + t.col ∧ ow + t.col - p.halo < p.inputCols

instance (p : Problem) (oh ow : Nat) (t : Tap) : Decidable (p.InBounds oh ow t) := by
  unfold InBounds
  infer_instance

/-- The taps under which an output element looks at the input; only an inline border leaves some
out. -/
def receptiveField (p : Problem) (oh ow : Nat) : List Tap :=
  if p.padding = .inline then p.taps.filter fun t => p.InBounds oh ow t else p.taps

/-- The sum of the products over the receptive field, from zero. -/
def fieldSum (p : Problem) (x w : Nat → Nat → Nat → Nat → α) (b f oh ow : Nat) : α :=
  (p.receptiveField oh ow).foldl (fun acc t =>
    acc + x b t.channel (oh + t.row - p.halo) (ow + t.col - p.halo) *
      w f t.channel t.row t.col) 0

theorem mem_taps {p : Problem} {t : Tap} : t ∈ p.taps ↔ p.HasTap t := by
  rcases t with ⟨c, kh, kw⟩
  simp [taps, HasTap]

theorem foldl_taps {β : Type} (p : Problem) (step : β → Tap → β) (acc : β) :
    p.taps.foldl step acc =
      (List.range p.patchSize).foldl (fun acc i => step acc (p.tapAt .nchw i)) acc := by
  rw [← foldl_taps_nchw, taps, List.foldl_flatMap]
  simp only [List.foldl_flatMap, List.foldl_map]

omit [Zero α] in
theorem addProduct_eq_ite {p : Problem} {x w : Nat → Nat → Nat → Nat → α} {b f oh ow : Nat}
    (acc : α) (t : Tap) :
    p.addProduct x w b f oh ow acc t =
      if p.InBounds oh ow t then
        acc + x b t.channel (oh + t.row - p.halo) (ow + t.col - p.halo) *
          w f t.channel t.row t.col
      else acc := by
  by_cases hrow : p.halo ≤ oh + t.row ∧ oh + t.row - p.halo < p.inputRows
  · by_cases hcol : p.halo ≤ ow + t.col ∧ ow + t.col - p.halo < p.inputCols
    · rw [if_pos ⟨hrow, hcol⟩, addProduct_of_some (sample?_of_source? (if_pos hrow) (if_pos hcol))]
      rfl
    · rw [if_neg fun h => hcol h.2, addProduct_of_none (sample?_of_col_none (if_neg hcol))]
  · rw [if_neg fun h => hrow h.1, addProduct_of_none (sample?_of_row_none (if_neg hrow))]

theorem Expandable.inBounds {p : Problem} (hp : p.Expandable) (h : p.padding ≠ .inline)
    {oh ow : Nat} (hoh : oh < p.outRows) (how : ow < p.outCols) {t : Tap} (ht : p.HasTap t) :
    p.InBounds oh ow t := by
  have hrow := hp.row_lt h hoh ht.2.1
  have hcol := hp.col_lt h how ht.2.2
  rw [InBounds, halo_of_ne_inline h]
  omega

/-- The loops add the products over the receptive field. -/
theorem directSum_eq_fieldSum {p : Problem} (hp : p.Admissible)
    (x w : Nat → Nat → Nat → Nat → α) (b f : Nat) {oh ow : Nat} (hoh : oh < p.outRows)
    (how : ow < p.outCols) : p.directSum .nchw x w b f oh ow = p.fieldSum x w b f oh ow := by
  rw [directSum, ← foldl_taps p (p.addProduct x w b f oh ow), fieldSum, receptiveField]
  by_cases hpadding : p.padding = .inline
  · rw [if_pos hpadding, List.foldl_filter]
    apply List.foldl_ext
    intro acc t _
    rw [addProduct_eq_ite]
    simp only [decide_eq_true_eq]
  · rw [if_neg hpadding]
    apply List.foldl_ext
    intro acc t ht
    rw [addProduct_eq_ite, if_pos (hp.expandable.inBounds hpadding hoh how (mem_taps.mp ht))]

/-!
## Recorded loops
-/

/-- The loops of one plane, with a record of the writes. -/
def recordPlane (p : Problem) (tile : Tile) (input weights : Array α) :
    Nat → (len : Nat) → RecordM α len Unit :=
  fun plane _ => do
    let filter ← slice weights (plane % p.outChannels * p.patchSize) p.patchSize
    let batchStart := plane / p.outChannels * p.inChannels * (p.inputRows * p.inputCols)
    forStrided p.outRows (max tile.rows 1) fun oh₀ =>
      forStrided p.outCols (max tile.cols 1) fun ow₀ =>
        forTile p.outRows (max tile.rows 1) oh₀ fun oh =>
          forTile p.outCols (max tile.cols 1) ow₀ fun ow => do
            let sum ← p.pixelSum input filter batchStart oh ow
            RecordM.write (oh * p.outCols + ow) sum

/-- The direct convolution in NCHW order, with a record of its writes. -/
def recordNchw (p : Problem) (schedule : Schedule) (tile : Tile) (input weights : Array α)
    {n : Nat} : RecordM α n Unit :=
  RecordM.onChunks schedule (p.outRows * p.outCols) (p.recordPlane tile input weights)

theorem recordNchw_erases (p : Problem) (schedule : Schedule) (tile : Tile)
    (input weights : Array α) {n : Nat} :
    RecordM.Erases (p.recordNchw schedule tile input weights : RecordM α n Unit)
      (p.directNchw schedule tile input weights) := by
  apply RecordM.erases_onChunks
  intro plane len
  apply (RecordM.erases_lift _).bind
  intro filter
  apply RecordM.erases_forRange
  intro s
  apply RecordM.erases_forRange
  intro t
  apply RecordM.erases_forRange
  intro oh
  apply RecordM.erases_forRange
  intro ow
  apply (RecordM.erases_lift _).bind
  intro sum
  exact RecordM.erases_write _ _

section

variable {p : Problem} {input weights : Array α} {x w : Nat → Nat → Nat → Nat → α}
  (hp : p.Admissible) (hx : p.HoldsInput .nchw input x) (hw : p.HoldsWeight .nchw weights w)
include hp hx hw

theorem records_plane (tile : Tile) {plane : Nat} (hplane : plane < p.batch * p.outChannels) :
    RecordM.Records (p.recordPlane tile input weights plane (p.outRows * p.outCols))
      ((tilePlaces p.outRows p.outCols (max tile.rows 1) (max tile.cols 1)).map fun i =>
        (i, spread p.outChannels p.outRows p.outCols (p.directSum .nchw x w)
          (plane * (p.outRows * p.outCols) + i))) := by
  have hb := div_lt_of_lt_mul hplane
  have hf := mod_lt_of_lt_mul hplane
  rw [recordPlane, RecordM.lift_bind (hw.slice_filter hf)]
  simp only [tilePlaces, List.map_flatMap, List.map_map]
  apply RecordM.records_forRange_zero
  intro s _
  apply RecordM.records_forRange_zero
  intro t _
  apply RecordM.records_forRange
  intro oh _ hoh
  rw [List.map_eq_flatMap]
  apply RecordM.records_forRange
  intro ow _ how
  have hoh' : oh < p.outRows := by omega
  have how' : ow < p.outCols := by omega
  have hplace : plane * (p.outRows * p.outCols) + (oh * p.outCols + ow) =
      rowMajor p.outChannels p.outRows p.outCols (plane / p.outChannels)
        (plane % p.outChannels) oh ow := by
    rw [rowMajor, Nat.div_add_mod']
    ring
  rw [RecordM.lift_bind (pixelSum_ok hp hx hb hoh' how'), Function.comp_apply, hplace,
    spread_rowMajor hf hoh' how']
  exact RecordM.records_write (add_mul_lt hoh' how') _

theorem records_nchw (schedule : Schedule) (tile : Tile) {n : Nat}
    (hn : n = p.batch * p.outChannels * (p.outRows * p.outCols)) :
    ∃ writes, RecordM.Records (p.recordNchw schedule tile input weights : RecordM α n Unit) writes ∧
      (writes.map Prod.fst).Perm (List.range n) := by
  have hchunk := hp.expandable.outPixels_pos
  refine ⟨_, RecordM.records_onChunks schedule hchunk hn
    fun plane hplane => records_plane hp hx hw tile hplane, ?_⟩
  have hplane : ∀ plane, ((tilePlaces p.outRows p.outCols (max tile.rows 1)
      (max tile.cols 1)).map fun i => plane * (p.outRows * p.outCols) + i).Perm
      ((List.range (p.outRows * p.outCols)).map fun i => plane * (p.outRows * p.outCols) + i) :=
    fun plane => (tilePlaces_perm (by omega) (by omega)).map _
  have hall := flatMap_range_mul (p.batch * p.outChannels) (p.outRows * p.outCols) id
  rw [List.map_id, ← hn] at hall
  simp only [shiftWrites, List.map_flatMap, List.map_map]
  rw [← hall]
  exact ((schedule.order_perm _).flatMap_right _).trans
    (List.Perm.flatMap_left _ fun plane _ => hplane plane)

end

/-!
## The output
-/

/-- The direct convolution of an accepted problem writes every output element exactly once, and it
leaves the sum over the receptive field there: whatever the tile, the order of the planes and the
old output are, and also with every size operation checked. -/
theorem directNchw_writes_once {input weight : Shape} {padding : Padding} {p : Problem}
    (h : ofShapes input weight padding = .ok p) {xs ws : Array α}
    {x w : Nat → Nat → Nat → Nat → α} (hx : p.HoldsInput .nchw xs x)
    (hw : p.HoldsWeight .nchw ws w) {n : Nat}
    (hn : n = p.batch * p.outChannels * p.outRows * p.outCols) :
    (∀ schedule tile, RecordM.Erases (p.recordNchw schedule tile xs ws : RecordM α n Unit)
      (p.directNchw schedule tile xs ws)) ∧
    ∃ result : Vector α n,
      (∀ b < p.batch, ∀ f < p.outChannels, ∀ oh < p.outRows, ∀ ow < p.outCols,
        result[rowMajor p.outChannels p.outRows p.outCols b f oh ow]? =
          some (p.fieldSum x w b f oh ow)) ∧
      ∀ schedule tile (v : Vector α n),
        p.directNchw schedule tile xs ws v = .ok () result ∧
        (∃ writes, p.recordNchw schedule tile xs ws ⟨v, []⟩ = .ok () ⟨result, writes⟩ ∧
          (writes.map Prod.fst).Perm (List.range n)) ∧
        (xs.size < Size.bufferLimit → ws.size < Size.bufferLimit → n < Size.bufferLimit →
          tile.rows < Size.limit → tile.cols < Size.limit →
            Word.directNchw p schedule tile xs ws v = .ok () result) := by
  rcases of_ofShapes h with ⟨hp, _, _, _⟩
  have hplanes : n = p.batch * p.outChannels * (p.outRows * p.outCols) := by
    rw [hn]
    ring
  have herases := fun schedule tile =>
    (p.recordNchw_erases schedule tile xs ws : RecordM.Erases (n := n) _ _)
  have hruns : ∀ schedule tile (v : Vector α n), p.directNchw schedule tile xs ws v =
      .ok () (v.mapIdx fun i _ =>
        spread p.outChannels p.outRows p.outCols (p.directSum .nchw x w) i) :=
    fun schedule tile => fills_directNchw hp hx hw schedule tile hn
  refine ⟨herases, Vector.ofFn fun i : Fin n =>
    spread p.outChannels p.outRows p.outCols (p.directSum .nchw x w) i, ?_, ?_⟩
  · intro b hb f hf oh hoh ow how
    have hlt := rowMajor_lt hb hf hoh how
    rw [← hn] at hlt
    rw [Vector.getElem?_eq_getElem hlt, Vector.getElem_ofFn, spread_rowMajor hf hoh how,
      directSum_eq_fieldSum hp x w b f hoh how]
  · intro schedule tile v
    have hrun : p.directNchw schedule tile xs ws v = .ok () (Vector.ofFn fun i : Fin n =>
        spread p.outChannels p.outRows p.outCols (p.directSum .nchw x w) i) := by
      rw [hruns schedule tile v]
      congr 1
      apply Vector.ext
      intro i hi
      rw [Vector.getElem_mapIdx, Vector.getElem_ofFn]
    rcases records_nchw hp hx hw schedule tile hplanes with ⟨writes, hrecords, hperm⟩
    refine ⟨hrun, ⟨writes, hrecords.run (herases schedule tile) hrun, hperm⟩, ?_⟩
    intro hxs hws hout hrows hcols
    have hbounded : p.Bounded := by
      refine ⟨hp, ?_, ?_, ?_⟩
      · rw [← Holds.size_eq hx]
        exact hxs
      · rw [← hw.rows.size_eq]
        exact hws
      · rw [outPixels, ← hplanes]
        exact hout
    rw [Word.directNchw_eq hbounded schedule hrows hcols hplanes]
    exact hrun

/-- In a plane of three rows and two columns, five of the nine taps of the corner lie outside;
the others give `1 * 5 + 2 * 6 + 3 * 8 + 4 * 9`. -/
theorem directNchw_writes_once_corner :
    ∃ x w p, Shape.ofDims [1, 1, 3, 2] = .ok x ∧ Shape.ofDims [1, 1, 3, 3] = .ok w ∧
      ofShapes x w .inline = .ok p ∧ ∃ result : Vector Int 6, result[0] = 77 ∧
        ∀ v, Word.directNchw p .serial ⟨0, Size.limit - 1⟩ #[1, 2, 3, 4, 5, 6]
          #[1, 2, 3, 4, 5, 6, 7, 8, 9] v = .ok () result := by
  have hp : ofShapes ⟨[1, 1, 3, 2], [6, 6, 2, 1], 6, by decide, by decide, by decide⟩
      ⟨[1, 1, 3, 3], [9, 9, 3, 1], 9, by decide, by decide, by decide⟩ .inline =
        .ok ⟨1, 1, 1, 3, 2, 3, .inline⟩ := by
    decide
  have hx : Holds #[1, 2, 3, 4, 5, 6] 1 1 3 2 fun _ _ y z => (2 * y + z + 1 : Int) :=
    ⟨by decide, by decide⟩
  have hw : Holds #[1, 2, 3, 4, 5, 6, 7, 8, 9] 1 1 3 3 fun _ _ y z => (3 * y + z + 1 : Int) :=
    ⟨by decide, by decide⟩
  rcases (directNchw_writes_once hp hx hw rfl).2 with ⟨result, hcells, hruns⟩
  have hcorner := hcells 0 (by decide) 0 (by decide) 0 (by decide) 0 (by decide)
  refine ⟨_, _, _, by decide, by decide, hp, result,
    Option.some.inj (hcorner.trans (by decide)), ?_⟩
  intro v
  exact (hruns .serial ⟨0, Size.limit - 1⟩ v).2.2 (by decide) (by decide) (by decide) (by decide)
    (by decide)

end Problem
end ConvSweep
