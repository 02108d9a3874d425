import ConvSweep.Error

/-!
# Shapes

A shape lists the extents of a tensor together with its row-major strides: the
stride of an axis is the product of the extents after it.  `Shape.ofDims?` takes
the products one after the other from the last axis on and gives up at the first
one that is not representable.
-/

namespace ConvSweep

/--
Strides and element count of a list of extents, from right to left: each stride
is the product of the extents after it, and every product has to be representable.
-/
def measure? : List Nat → Option (List Nat × Nat)
  | [] => some ([], 1)
  | d :: rest => do
      let (strides, size) ← measure? rest
      let total ← Size.mul? size d
      return (size :: strides, total)

/-- A list of positive extents with its strides and the number of its elements. -/
structure Shape where
  dims : List Nat
  strides : List Nat
  total : Nat
  dims_ne_nil : dims ≠ []
  dims_ne_zero : 0 ∉ dims
  measured : measure? dims = some (strides, total)
deriving DecidableEq

inductive ExtentPattern
  | any
  | exactly (extent : Nat)
deriving DecidableEq

def ExtentPattern.admits : ExtentPattern → Nat → Bool
  | any, _ => true
  | exactly wanted, extent => wanted == extent

namespace Shape

def ofDims? (dims : List Nat) : Option Shape :=
  if hnil : dims = [] then none
  else if hzero : 0 ∈ dims then none
  else
    match hm : measure? dims with
    | some (strides, total) => some ⟨dims, strides, total, hnil, hzero, hm⟩
    | none => none

/-- The shape with the given extents; they must be positive and their product representable. -/
def ofDims (dims : List Nat) : Except Error Shape :=
  match ofDims? dims with
  | some shape => .ok shape
  | none => .error (.invalidShape dims)

def rank (shape : Shape) : Nat :=
  shape.dims.length

def text (shape : Shape) : String :=
  extentsText shape.dims

def extent (shape : Shape) (axis : Nat) : Except Fault Nat :=
  Fault.outOfRange.demand shape.dims[axis]?

def stride (shape : Shape) (axis : Nat) : Except Fault Nat :=
  Fault.outOfRange.demand shape.strides[axis]?

/-! ## Offsets -/

/--
The sum of coordinates times strides.  Coordinates need not be within their
extents, but the sum has to be representable; then so is each of its terms.
-/
def flatIndex (shape : Shape) (coords : List Nat) : Except Fault Nat := do
  Fault.coordinateCount.check (coords.length = shape.rank)
  Size.checked ((List.zipWith (· * ·) coords shape.strides).foldr (· + ·) 0)

/-- Quotients by the strides, each taken of the rest that the strides before it leave. -/
def quotients : List Nat → Nat → List Nat
  | [], _ => []
  | s :: rest, offset => offset / s :: quotients rest (offset % s)

/-- The coordinates of an offset; past the end the first coordinate leaves its extent. -/
def coordsOf (shape : Shape) (offset : Nat) : List Nat :=
  quotients shape.strides offset

/-! ## Extents -/

/-- The extents of the wanted axes, in their places; there must be one flag per axis. -/
def unpack (shape : Shape) (wanted : List Bool) : Except Error (List (Option Nat)) :=
  if wanted.length = shape.rank then
    .ok (List.zipWith (fun want extent => if want then some extent else none) wanted shape.dims)
  else
    .error (.rankMismatch shape.rank wanted.length)

def quad (shape : Shape) : Except Error (Nat × Nat × Nat × Nat) :=
  match shape.dims with
  | [a, b, c, d] => .ok (a, b, c, d)
  | _ => .error (.rankMismatch shape.rank 4)

/-- Whether there is one pattern per axis and each admits its extent. -/
def validate (shape : Shape) (expected : List ExtentPattern) : Bool :=
  expected.length == shape.rank &&
    (List.zipWith ExtentPattern.admits expected shape.dims).all id

end Shape
end ConvSweep
