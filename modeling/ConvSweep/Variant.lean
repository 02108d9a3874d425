/-!
# Convolution variants

A convolution is computed in one of two axis orders by one of three algorithms,
and its border is handled in one of three ways.
-/

namespace ConvSweep

/-- Axis order of the activations. -/
inductive Layout
  /-- Batch, channel, row, column. -/
  | nchw
  /-- Batch, row, column, channel. -/
  | nhwc
deriving DecidableEq, Inhabited

def Layout.text : Layout → String
  | nchw => "NCHW"
  | nhwc => "NHWC"

inductive Algorithm
  /-- Nested loops over the output, without a scratch buffer. -/
  | direct
  /-- Patches times the dense weight matrix. -/
  | dense
  /-- Patches times the pruned weight matrix. -/
  | sparse
deriving DecidableEq, Inhabited

def Algorithm.text : Algorithm → String
  | direct => "direct"
  | dense => "gemm"
  | sparse => "spgemm"

/-- The first two keep the spatial size, the last one shrinks it by the kernel size less one. -/
inductive Padding
  /-- A zero border is written around the input once; every tap is read. -/
  | prepad
  /-- No border; a tap outside the input counts as zero. -/
  | inline
  /-- No border; only positions where the whole kernel fits. -/
  | valid
deriving DecidableEq, Inhabited

def Padding.text : Padding → String
  | prepad => "prepad"
  | inline => "inline"
  | valid => "valid"

/-- Axis order of the patch buffer. -/
inductive PatchOrder
  /-- `(N, OH, OW, C, K, K)`, from an NCHW input. -/
  | pixelChw
  /-- `(N, OH, OW, K, K, C)`, from an NHWC input. -/
  | pixelHwc
  /-- `(N, C, K, K, OH, OW)`, from an NCHW input. -/
  | channelMajor
deriving DecidableEq, Inhabited

def PatchOrder.text : PatchOrder → String
  | pixelChw => "PixelChw"
  | pixelHwc => "PixelHwc"
  | channelMajor => "ChannelMajor"

/-- Rows and columns of the output that the direct loops visit together. -/
structure Tile where
  rows : Nat
  cols : Nat
deriving DecidableEq, Inhabited

def Tile.standard : Tile := ⟨2, 10⟩

end ConvSweep
