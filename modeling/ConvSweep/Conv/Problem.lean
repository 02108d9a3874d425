import ConvSweep.Tensor.Shape

/-!
# Convolution problems

A problem fixes the sizes of one convolution with stride one: batch, channels,
spatial extents of the input, kernel size and the treatment of the border.  All
other sizes follow.  They are computed without bounds, and `Representable` says
that all of them, and the subtractions on the way, stay within the word.
-/

namespace ConvSweep

structure Problem where
  batch : Nat
  inChannels : Nat
  outChannels : Nat
  height : Nat
  width : Nat
  kernel : Nat
  padding : Padding
deriving DecidableEq, Inhabited

namespace Problem

/-! ## Derived sizes -/

/-- The taps on one side of the middle tap. -/
def halfKernel (p : Problem) : Nat :=
  (p.kernel - 1) / 2

/-- Width of the zero border that the prepared input has. -/
def border (p : Problem) : Nat :=
  match p.padding with
  | .prepad => p.halfKernel
  | .inline | .valid => 0

/-- How far the first tap of an output position lies before that position in the prepared input. -/
def halo (p : Problem) : Nat :=
  match p.padding with
  | .inline => p.halfKernel
  | .prepad | .valid => 0

def inputRows (p : Problem) : Nat :=
  p.height + 2 * p.border

def inputCols (p : Problem) : Nat :=
  p.width + 2 * p.border

def outRows (p : Problem) : Nat :=
  match p.padding with
  | .valid => p.height - p.kernel + 1
  | .prepad | .inline => p.height

def outCols (p : Problem) : Nat :=
  match p.padding with
  | .valid => p.width - p.kernel + 1
  | .prepad | .inline => p.width

/-- The number of taps of one output element. -/
def patchSize (p : Problem) : Nat :=
  p.inChannels * p.kernel * p.kernel

def outPixels (p : Problem) : Nat :=
  p.outRows * p.outCols

/-- The prepared coordinate under tap `k` of output coordinate `o`, unless it lies outside. -/
def source? (halo extent o k : Nat) : Option Nat :=
  if halo ≤ o + k ∧ o + k - halo < extent then some (o + k - halo) else none

/-! ## Bounds -/

/-- The output extents can be computed. -/
def OutputFits (p : Problem) : Prop :=
  (p.padding = .valid → p.kernel ≤ p.height ∧ p.kernel ≤ p.width) ∧
    Size.Fits p.outRows ∧ Size.Fits p.outCols

instance (p : Problem) : Decidable p.OutputFits := by
  unfold OutputFits
  infer_instance

/-- All derived sizes can be computed. -/
def Representable (p : Problem) : Prop :=
  p.OutputFits ∧ 0 < p.kernel ∧ Size.Fits p.inputRows ∧ Size.Fits p.inputCols ∧
    Size.Fits p.patchSize ∧ Size.Fits p.outPixels

instance (p : Problem) : Decidable p.Representable := by
  unfold Representable
  infer_instance

/-! ## Shapes -/

/-- The kernel has a middle tap, and fits the input if no border is added. -/
def check (p : Problem) : Except Error Unit :=
  if p.kernel % 2 = 0 then
    .error (.evenKernel p.kernel)
  else if p.padding = .valid ∧ (p.height < p.kernel ∨ p.width < p.kernel) then
    .error (.kernelTooLarge p.kernel p.height p.width)
  else
    .ok ()

/-- The problem of an `(N, C, H, W)` input and an `(F, C, K, K)` weight. -/
def ofShapes (input weight : Shape) (padding : Padding) : Except Error Problem := do
  let (batch, inChannels, height, width) ← input.quad
  let (outChannels, _, kernel, _) ← weight.quad
  if weight.validate [.any, .exactly inChannels, .exactly kernel, .exactly kernel] then
    let p : Problem := { batch, inChannels, outChannels, height, width, kernel, padding }
    p.check
    return p
  else
    throw (.shapeMismatch (.weightExtents weight.dims input.dims inChannels))

end Problem
end ConvSweep
