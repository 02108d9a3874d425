import ConvSweep.Size

/-!
# Filter shapes

A case of the sweep is named by the extents of its filter: output channels, input
channels, kernel rows and kernel columns.
-/

namespace ConvSweep

/-- Extents written one after the other, as in `2x3x5x5`. -/
def extentsText (dims : List Nat) : String :=
  "x".intercalate (dims.map toString)

structure FilterShape where
  outChannels : Nat
  inChannels : Nat
  kernelRows : Nat
  kernelCols : Nat
deriving DecidableEq, Inhabited

namespace FilterShape

def dims (shape : FilterShape) : List Nat :=
  [shape.outChannels, shape.inChannels, shape.kernelRows, shape.kernelCols]

def text (shape : FilterShape) : String :=
  extentsText shape.dims

def isEmpty (shape : FilterShape) : Bool :=
  shape.dims.contains 0

/-- The number of weights; it faults when a partial product is not representable. -/
def size (shape : FilterShape) : Except Fault Nat :=
  Size.product shape.dims

/-- The number of weights, if every partial product is representable. -/
def size? (shape : FilterShape) : Option Nat :=
  Size.product? shape.dims

/-- The number of bytes of the weights, if it is representable. -/
def byteSize? (shape : FilterShape) : Option Nat := do
  Size.mul? (← shape.size?) 4

end FilterShape
end ConvSweep
