import Mathlib
import ConvSweep.Conv.Executor
import ConvSweep.Proofs.Conv.Taps
import ConvSweep.Proofs.Matrix.Sparse

/-!
# The multiplies of an executor

The dense and the sparse variant multiply the weight, a matrix with a row per
filter, with the patches of each batch element.  Whatever the scratch buffer
holds, the multiply succeeds and stores every cell of the output: a product of a
filter with the patch of an output position.
-/

namespace ConvSweep

open BufferM Loop

variable {α : Type}

namespace Problem

/-- The cell of an output plane, from its filter and its pixel. -/
theorem spread_pixel {p : Problem} {y : Nat → Nat → Nat → Nat → α} {b c : Nat}
    (hc : c < p.outChannels * p.outPixels) :
    spread p.outChannels p.outRows p.outCols y (b * p.outChannels * p.outPixels + c) =
      y b (c / p.outPixels) (c % p.outPixels / p.outCols) (c % p.outPixels % p.outCols) := by
  have hf := div_lt_of_lt_mul hc
  have hpixel := mod_lt_of_lt_mul hc
  have hsplit := Nat.div_add_mod' c p.outPixels
  generalize c / p.outPixels = f at hf hsplit ⊢
  generalize c % p.outPixels = pixel at hpixel hsplit ⊢
  have hsplit' := Nat.div_add_mod' pixel p.outCols
  rw [outPixels] at hpixel
  have hplace : b * p.outChannels * p.outPixels + c =
      rowMajor p.outChannels p.outRows p.outCols b f (pixel / p.outCols) (pixel % p.outCols) := by
    rw [← hsplit, rowMajor, outPixels]
    generalize pixel / p.outCols = oh at hsplit' ⊢
    generalize pixel % p.outCols = ow at hsplit' ⊢
    rw [← hsplit']
    ring
  rw [hplace, spread_rowMajor hf (div_lt_of_lt_mul hpixel) (mod_lt_of_lt_mul hpixel)]

/-- A loop over the batch that computes the output planes of one batch element at a time. -/
theorem fills_batches {p : Problem} {n : Nat} {body : Nat → BufferM α n Unit}
    {y : Nat → Nat → Nat → Nat → α} (hn : n = p.batch * p.outChannels * p.outPixels)
    (h : ∀ b < p.batch, ∃ act : BufferM α (p.outChannels * p.outPixels) Unit,
      body b = onSlice (b * p.outChannels * p.outPixels) (p.outChannels * p.outPixels) act ∧
        Fills act fun c => y b (c / p.outPixels) (c % p.outPixels / p.outCols)
          (c % p.outPixels % p.outCols)) :
    Fills (forRange 0 p.batch body) (spread p.outChannels p.outRows p.outCols y) := by
  apply Puts.fills
  · apply puts_forRange_zero
    intro b hb
    rcases h b hb with ⟨act, hbody, hact⟩
    rw [hbody]
    apply Fills.puts_onSlice
    · rw [hn, Nat.mul_assoc b, Nat.mul_assoc p.batch]
      exact mul_add_le _ hb
    · apply hact.congr
      intro c hc
      rw [spread_pixel hc]
  · intro i hi
    rw [hn, Nat.mul_assoc] at hi
    have hmod := mod_lt_of_lt_mul hi
    have hsplit := Nat.div_add_mod' i (p.outChannels * p.outPixels)
    refine ⟨_, div_lt_of_lt_mul hi, ?_, ?_⟩
    · rw [Nat.mul_assoc]
      omega
    · rw [Nat.mul_assoc]
      omega

end Problem

namespace Executor

variable [Zero α] [One α] [Add α] [Mul α] [BEq α] [ZeroTest α]
variable {p : Problem} {weight patches : Array α} {W P : Nat → Nat → α} {n : Nat}

/-- The output planes of one batch element fit the word if the whole output does. -/
theorem planes_lt (hp : p.Admissible) (hn : n = p.batch * p.outChannels * p.outPixels)
    (hlimit : n < Size.limit) : p.outChannels * p.outPixels < Size.limit := by
  rw [hn, Nat.mul_assoc] at hlimit
  exact Nat.lt_of_le_of_lt (Nat.le_mul_of_pos_left _ hp.batch_pos) hlimit

theorem fills_multiplyNchw (hp : p.Admissible)
    (hw : HoldsRows weight p.outChannels p.patchSize W)
    (hx : HoldsRows patches (p.batch * p.outPixels) p.patchSize P) (schedule : Schedule)
    (tile : Nat) (hweight : weight.size < Size.limit) (hpatches : patches.size < Size.limit)
    (hlimit : n < Size.limit) (hn : n = p.batch * p.outChannels * p.outPixels) :
    Fills (multiplyNchw schedule p tile weight patches : BufferM α n Unit)
      (spread p.outChannels p.outRows p.outCols fun b f oh ow =>
        1 * rowProduct p.patchSize (W f) (P (b * p.outPixels + (oh * p.outCols + ow)))) := by
  apply Problem.fills_batches hn
  intro b hb
  rcases hx.slice_rows (mul_add_le p.outPixels hb) with ⟨part, hpart, hrows, hle⟩
  have hsize := Nat.lt_of_le_of_lt hle hpatches
  refine ⟨DenseMultiply.run schedule tile
    (.ofRows p.outChannels p.outPixels p.patchSize weight part), lift_bind hpart _, ?_⟩
  apply (DenseMultiply.fills_run schedule tile hp.outChannels_pos hp.expandable.outPixels_pos
    hp.expandable.patchSize_pos hw hrows hweight hsize (planes_lt hp hn hlimit)).congr
  intro c _
  rw [Nat.div_add_mod']

theorem fills_multiplySparse {weights : CsrMatrix α} {keep : Nat → Nat → Bool}
    (hp : p.Admissible) (hw : weights.Stores p.outChannels p.patchSize keep W)
    (hx : HoldsRows patches (p.batch * p.patchSize) p.outPixels P) (schedule : Schedule)
    (hpatches : patches.size < Size.limit) (hlimit : n < Size.limit)
    (hn : n = p.batch * p.outChannels * p.outPixels) :
    Fills (multiplySparse schedule p weights patches : BufferM α n Unit)
      (spread p.outChannels p.outRows p.outCols fun b f oh ow =>
        keptProduct p.patchSize (keep f) (W f) fun i =>
          P (b * p.patchSize + i) (oh * p.outCols + ow)) := by
  apply Problem.fills_batches hn
  intro b hb
  rcases hx.slice_rows (mul_add_le p.patchSize hb) with ⟨part, hpart, hrows, hle⟩
  have hsize := Nat.lt_of_le_of_lt hle hpatches
  refine ⟨SparseMultiply.run schedule (.ofRows p.outPixels weights part), lift_bind hpart _, ?_⟩
  apply (SparseMultiply.fills_run schedule hp.outChannels_pos hp.expandable.outPixels_pos hw hrows
    hsize (planes_lt hp hn hlimit)).congr
  intro c _
  rw [Nat.div_add_mod']

theorem fills_multiplyNhwc (hp : p.Admissible)
    (hw : HoldsRows weight p.outChannels p.patchSize W)
    (hx : HoldsRows patches (p.batch * p.outPixels) p.patchSize P) (schedule : Schedule)
    (tile : Nat) (hweight : weight.size < Size.limit) (hpatches : patches.size < Size.limit)
    (hlimit : n < Size.limit) (hn : n = p.batch * p.outPixels * p.outChannels) :
    Fills (multiplyNhwc schedule p tile weight patches : BufferM α n Unit)
      (spread p.outRows p.outCols p.outChannels fun b oh ow f =>
        1 * rowProduct p.patchSize (P (b * p.outPixels + (oh * p.outCols + ow))) (W f)) := by
  subst hn
  apply (DenseMultiply.fills_run schedule tile
    (Nat.mul_pos hp.batch_pos hp.expandable.outPixels_pos) hp.outChannels_pos
    hp.expandable.patchSize_pos hx hw hpatches hweight hlimit).congr
  intro c hc
  have hsize : p.batch * p.outPixels * p.outChannels =
      p.batch * p.outRows * p.outCols * p.outChannels := by
    rw [Problem.outPixels]
    ring
  rw [hsize] at hc
  rcases exists_rowMajor hc with ⟨b, _, oh, hoh, ow, how, f, hf, hEq⟩
  have hplace : c = (b * p.outPixels + (oh * p.outCols + ow)) * p.outChannels + f := by
    rw [hEq, rowMajor, Problem.outPixels]
    ring
  rw [hEq, spread_rowMajor hoh how hf, ← hEq, hplace, add_mul_div_of_lt hf,
    add_mul_mod_of_lt hf]

end Executor
end ConvSweep
