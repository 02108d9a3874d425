import ConvSweep.Decimal.Shortest
import ConvSweep.Tensor.Basic

/-!
# Divergence of results

Two tensors of one shape are compared in double precision: by the sum of the
squared differences and by the largest relative error.  Magnitudes below one are
compared absolutely.  The maximum passes over a NaN.
-/

namespace ConvSweep

/-- The larger number; a NaN gives way to the other operand. -/
def maxNumber (x y : Float) : Float :=
  if x.isNaN then y
  else if y.isNaN then x
  else if x < y then y
  else x

/-- Relative errors of the dense variants up to this bound are unremarkable. -/
def denseTolerance : Float := 1e-3

namespace Tensor

/-- The pairs of elements at the same place, in double precision. -/
def elementPairs (s t : Tensor Binary32) : Except Error (List (Float × Float)) :=
  if s.dims = t.dims then
    .ok (s.data.toList.zip t.data.toList |>.map fun (x, y) => (x.toFloat, y.toFloat))
  else
    .error (.shapeMismatch (.comparison s.dims t.dims))

def squareDiff (s t : Tensor Binary32) : Except Error Float := do
  let pairs ← s.elementPairs t
  return pairs.foldl (fun sum (x, y) => sum + (x - y) * (x - y)) 0

/-- `|x - y| / max (|x|, |y|, 1)` -/
def relativeError (x y : Float) : Float :=
  (x - y).abs / maxNumber (maxNumber x.abs y.abs) 1

def maxRelativeError (s t : Tensor Binary32) : Except Error Float := do
  let pairs ← s.elementPairs t
  return pairs.foldl (fun largest (x, y) => maxNumber largest (relativeError x y)) 0

end Tensor

/-- How far one variant is from the reference. -/
structure DiffRecord where
  layout : Layout
  algorithm : Algorithm
  /-- Sum of the squared differences. -/
  squares : Float
  maxRelative : Float

def DiffRecord.text (d : DiffRecord) : String :=
  ",".intercalate ["diff", d.layout.text, d.algorithm.text, Decimal.shortest d.squares]

end ConvSweep
